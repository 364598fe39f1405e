/-
  The deferred cleanup of tasks — the namespace in which it is done.

  The hook in `do_exit` records the ipc namespace of the task in its entry, without a
  reference; the task goes on to `exit_task_namespaces`, and the worker of `ds-zap`
  uses what was recorded when it gets to the entry.  A step is what is done under one
  lock, or one read of a count; namespaces and proxies are those of `Slot.Kernel`.

  * `World`, `step`: tasks in `do_exit`, and the worker;
  * `Frees`: a drop that frees a namespace; `Wanted`: an entry records it, or will;
  * `Careful`: no namespace is freed that is wanted;
  * `recorded_live`: in runs of such steps the namespace is there, and after any other
    step there is a run to a state where it is not.
-/
import Mathlib.Tactic.SplitIfs
import DroidLkm.Lib.Machine
import DroidLkm.Slot.Machine

namespace DroidLkm.Tasks.ExitNs

open Machine Slot

/-- `struct droid_lkm_task_ipc`, as far as it is read here. -/
structure Entry where
  deferQueued : Bool
  exitNs : ℕ
  deriving DecidableEq

/-- What a wrap has read of the nsproxy: whether its count is 1, and its namespace. -/
structure Seen where
  last : Bool
  ipc : Option ℕ
  deriving DecidableEq

/-- Where a task is. -/
inductive Pc where
  | running
  /-- the entry is marked, and to be put on the deferred list -/
  | marked
  /-- past the hook -/
  | exiting
  /-- in `droid_lkm_exit_ns_wrap`, -/
  | exitWrap (o : Seen)
  /-- in `droid_lkm_switch_wrap` inside it, -/
  | switchWrap (o i : Seen)
  /-- after `switch_task_namespaces`, -/
  | switched (o i : Seen)
  /-- and back in the outer wrap -/
  | dropped (o : Seen)
  | gone
  deriving DecidableEq

/-- What `droid_lkm_task_ipc_deferred_run` has done with the entry it has taken. -/
inductive Stage where
  | popped
  /-- `droid_lkm_exit_sem_ns` -/
  | undone
  /-- `droid_lkm_exit_shm` -/
  | shmDone
  deriving DecidableEq

/-- The entries are named by their tasks. -/
structure World where
  k : Kernel
  entry : ℕ → Option Entry
  /-- `droid_lkm_deferred_list` -/
  deferred : List ℕ
  pc : ℕ → Pc
  /-- the entry that the worker applies -/
  worker : Option (ℕ × Stage)

inductive Act where
  /-- `droid_lkm_task_ipc_exit_defer`, as far as the mark -/
  | mark (t : ℕ)
  /-- and the rest of it -/
  | queue (t : ℕ)
  /-- a step of `exit_task_namespaces` -/
  | exitNs (t : ℕ)
  /-- a step of `droid_lkm_task_ipc_deferred_run` -/
  | work
  deriving DecidableEq

namespace World

def setPc (w : World) (t : ℕ) (x : Pc) : World := { w with pc := Function.update w.pc t x }

def setEntry (w : World) (t : ℕ) (e : Option Entry) : World :=
  { w with entry := Function.update w.entry t e }

/-- What a wrap reads. -/
def see (w : World) (t : ℕ) : Seen :=
  let last := w.k.nsproxyLast (w.k.task t).nsproxy
  ⟨last, if last then (w.k.nsproxyOf t).bind (·.ipcNs) else none⟩

/-- A wrap drops what it has read. -/
def drop (w : World) (o : Seen) : World :=
  if o.last then { w with k := w.k.nsproxyDrop o.ipc } else w

/-- `exit_task_namespaces`, one step; without the hooks it is one switch. -/
def exitStep (w : World) (t : ℕ) : Option World :=
  match w.pc t with
  | .exiting =>
    if w.k.cfg.releaseHooked then some (w.setPc t (.exitWrap (w.see t)))
    else some ({ w with k := w.k.switchTask t none }.setPc t .gone)
  | .exitWrap o => some (w.setPc t (.switchWrap o (w.see t)))
  | .switchWrap o i => some ({ w with k := w.k.switchTask t none }.setPc t (.switched o i))
  | .switched o i => some ((w.drop i).setPc t (.dropped o))
  | .dropped o => some ((w.drop o).setPc t .gone)
  | _ => none

/-- `droid_lkm_task_ipc_deferred_run`, one step. -/
def workStep (w : World) : Option World :=
  match w.worker with
  | none =>
    match w.deferred with
    | [] => none
    | t :: rest => some { w with deferred := rest, worker := some (t, .popped) }
  | some (t, .popped) => some { w with worker := some (t, .undone) }
  | some (t, .undone) => some { w with worker := some (t, .shmDone) }
  | some (t, .shmDone) => some { w.setEntry t none with worker := none }

end World

open World in
def step (w : World) : Act → Option World
  | .mark t =>
    match w.pc t with
    | .running =>
      match w.entry t with
      | some ⟨false, _⟩ =>
        some ((w.setEntry t (some ⟨true, w.k.ipcnsTaskNs t⟩)).setPc t .marked)
      | _ => some (w.setPc t .exiting)
    | _ => none
  | .queue t =>
    match w.pc t with
    | .marked => some ({ w with deferred := w.deferred ++ [t] }.setPc t .exiting)
    | _ => none
  | .exitNs t => w.exitStep t
  | .work => w.workStep

/-! ## What is asked -/

/-- A namespace that is not the host's and has been freed. -/
def Freed (k : Kernel) (n : ℕ) : Prop := n ≠ 0 ∧ k.ipcnsIsOurs n = false

/-- The namespace of the entry that the worker applies is there. -/
def Live (w : World) : Prop :=
  ∀ t st, w.worker = some (t, st) → ∃ e, w.entry t = some e ∧ ¬Freed w.k e.exitNs

/-- What a step of `exit_task_namespaces` is about to drop. -/
def drops (w : World) : Act → Option Seen
  | .exitNs t =>
    match w.pc t with
    | .switched _ i => some i
    | .dropped o => some o
    | _ => none
  | _ => none

/-- It is the last reference. -/
def Frees (w : World) (act : Act) (n : ℕ) : Prop :=
  drops w act = some ⟨true, some n⟩ ∧ n ≠ 0 ∧ w.k.ipcnsIsOurs n = true ∧
    (w.k.ipcns n).refcount = 1

/-- An entry that the worker has not freed yet records the namespace, or one will that
    belongs to a task before the hook. -/
def Wanted (w : World) (n : ℕ) : Prop :=
  (∃ t, w.entry t = some ⟨true, n⟩) ∨
    ∃ t e, w.pc t = .running ∧ w.entry t = some e ∧ e.deferQueued = false ∧ w.k.ipcnsTaskNs t = n

/-- Nothing that is wanted is freed. -/
def Careful (w : World) (act : Act) : Prop := ∀ n, Frees w act n → ¬Wanted w n

/-- Nobody is in `do_exit`, and the tasks that have an entry are in namespaces that are
    there. -/
structure Start (w : World) : Prop where
  worker : w.worker = none
  deferred : w.deferred = []
  running : ∀ t, w.pc t = .running
  unqueued : ∀ t e, w.entry t = some e → e.deferQueued = false
  live : ∀ t e, w.entry t = some e → ¬Freed w.k (w.k.ipcnsTaskNs t)

variable {k : Kernel} {w w' w₀ : World} {act : Act} {t t' n : ℕ} {e : Entry} {o : Seen}

/-! ## A task that exits -/

theorem switchTask_ipcns (k : Kernel) (t : ℕ) (q : Option ℕ) :
    (k.switchTask t q).ipcns = k.ipcns := by
  unfold Kernel.switchTask
  split <;> rfl

/-- The others stay where they are, or have lost their nsproxy. -/
theorem switchTask_taskNs (ht : t' ≠ t) (q : Option ℕ) :
    (k.switchTask t q).ipcnsTaskNs t' = k.ipcnsTaskNs t' ∨
      (k.switchTask t q).ipcnsTaskNs t' = 0 := by
  unfold Kernel.switchTask
  split
  · left
    simp [Kernel.ipcnsTaskNs, Kernel.nsproxyOf, Kernel.setTask, ht]
  next old hold =>
    cases hq : (k.task t').nsproxy with
    | none =>
      left
      simp [Kernel.ipcnsTaskNs, Kernel.nsproxyOf, Kernel.setTask, Kernel.putNsproxy, ht, hq]
    | some q' =>
      by_cases hne : q' = old
      · subst hne
        cases hx : k.nsp q' with
        | none =>
          left
          simp [Kernel.ipcnsTaskNs, Kernel.nsproxyOf, Kernel.setTask, Kernel.putNsproxy, ht, hq, hx]
        | some x =>
          by_cases hcount : x.count ≤ 1
          · right
            simp [Kernel.ipcnsTaskNs, Kernel.nsproxyOf, Kernel.setTask, Kernel.putNsproxy, ht, hq,
              hx, hcount]
          · left
            simp [Kernel.ipcnsTaskNs, Kernel.nsproxyOf, Kernel.setTask, Kernel.putNsproxy, ht, hq,
              hx, hcount]
      · left
        simp [Kernel.ipcnsTaskNs, Kernel.nsproxyOf, Kernel.setTask, Kernel.putNsproxy, ht, hq, hne]

theorem nsproxyDrop_taskNs (k : Kernel) (x : Option ℕ) (t : ℕ) :
    (k.nsproxyDrop x).ipcnsTaskNs t = k.ipcnsTaskNs t := by
  cases x with
  | none => rfl
  | some n =>
    unfold Kernel.nsproxyDrop Kernel.ipcnsPut
    dsimp only
    split_ifs <;> rfl

/-- A drop frees nothing but the namespace of which it drops the last reference. -/
theorem nsproxyDrop_freed (k : Kernel) (x : Option ℕ) (n : ℕ) : Freed (k.nsproxyDrop x) n ↔
    Freed k n ∨ x = some n ∧ n ≠ 0 ∧ k.ipcnsIsOurs n = true ∧ (k.ipcns n).refcount = 1 := by
  cases x with
  | none => simp [Kernel.nsproxyDrop]
  | some m =>
    by_cases hm : m = n
    · subst hm
      unfold Kernel.nsproxyDrop Kernel.ipcnsPut Freed Kernel.ipcnsIsOurs
      dsimp only
      split_ifs with hours hone hzero <;> simp_all [Kernel.setIpcRefcount]
    · have hother : ((k.nsproxyDrop (some m)).ipcns n).listed = (k.ipcns n).listed := by
        unfold Kernel.nsproxyDrop Kernel.ipcnsPut
        dsimp only
        split_ifs <;> simp [Kernel.setIpcRefcount, Ne.symm hm]
      simp [Freed, Kernel.ipcnsIsOurs, hother, hm]

theorem drop_taskNs (w : World) (o : Seen) (t : ℕ) :
    (w.drop o).k.ipcnsTaskNs t = w.k.ipcnsTaskNs t := by
  unfold World.drop
  split
  · exact nsproxyDrop_taskNs w.k o.ipc t
  · rfl

theorem drop_freed (w : World) (o : Seen) (n : ℕ) : Freed (w.drop o).k n ↔
    Freed w.k n ∨ o = ⟨true, some n⟩ ∧ n ≠ 0 ∧ w.k.ipcnsIsOurs n = true ∧
      (w.k.ipcns n).refcount = 1 := by
  rcases o with ⟨last, ipc⟩
  cases last with
  | true => simpa [World.drop] using nsproxyDrop_freed w.k ipc n
  | false => simp [World.drop]

/-! ## The invariant -/

/-- The entries that the worker has not freed, and that are on the list. -/
def World.pending (w : World) : List ℕ := (w.worker.map Prod.fst).toList ++ w.deferred

structure Inv (w : World) : Prop where
  live : ∀ n, Wanted w n → ¬Freed w.k n
  nodup : w.pending.Nodup
  entry : ∀ t ∈ w.pending, ∃ n, w.entry t = some ⟨true, n⟩
  queued : ∀ t n, w.entry t = some ⟨true, n⟩ → t ∈ w.pending ∨ w.pc t = .marked
  marked : ∀ t, w.pc t = .marked → t ∉ w.pending ∧ ∃ n, w.entry t = some ⟨true, n⟩
  running : ∀ t, w.pc t = .running → t ∉ w.pending

theorem Start.inv (h : Start w) : Inv w := by
  have hpending : w.pending = [] := by simp [World.pending, h.worker, h.deferred]
  refine ⟨?_, by simp [hpending], by simp [hpending], ?_, ?_, by simp [hpending]⟩
  · rintro n (⟨t, ht⟩ | ⟨t, e, -, he, -, rfl⟩)
    · cases h.unqueued t _ ht
    · exact h.live t e he
  · intro t n ht
    cases h.unqueued t _ ht
  · intro t ht
    rw [h.running t] at ht
    cases ht

theorem Inv.safe (h : Inv w) : Live w := by
  intro t st hw
  have hmem : t ∈ w.pending := by simp [World.pending, hw]
  obtain ⟨n, hn⟩ := h.entry t hmem
  exact ⟨_, hn, h.live n (.inl ⟨t, hn⟩)⟩

theorem Freed.of_ipcns {k k' : Kernel} (h : k'.ipcns = k.ipcns) (n : ℕ) :
    Freed k' n ↔ Freed k n := by
  rw [Freed, Freed, Kernel.ipcnsIsOurs, Kernel.ipcnsIsOurs, h]

/-- What a step of `exit_task_namespaces` leaves of the namespaces. -/
structure Moved (w : World) (t : ℕ) (k : Kernel) (x : Pc) : Prop where
  before : w.pc t ≠ .running ∧ w.pc t ≠ .marked
  after : x ≠ .running ∧ x ≠ .marked
  taskNs : ∀ t' ≠ t, k.ipcnsTaskNs t' = w.k.ipcnsTaskNs t' ∨ k.ipcnsTaskNs t' = 0
  freed : ∀ n, Freed k n ↔ Freed w.k n ∨ Frees w (.exitNs t) n
  /-- a drop moves nobody -/
  stay : ∀ n, Frees w (.exitNs t) n → ∀ t', k.ipcnsTaskNs t' = w.k.ipcnsTaskNs t'

theorem Moved.same {x : Pc} (before : w.pc t ≠ .running ∧ w.pc t ≠ .marked)
    (after : x ≠ .running ∧ x ≠ .marked) (hdrops : drops w (.exitNs t) = none) :
    Moved w t w.k x := by
  refine ⟨before, after, fun t' _ => .inl rfl, fun n => ?_, fun _ _ _ => rfl⟩
  simp [Frees, hdrops]

theorem Moved.switch {x : Pc} (before : w.pc t ≠ .running ∧ w.pc t ≠ .marked)
    (after : x ≠ .running ∧ x ≠ .marked) (hdrops : drops w (.exitNs t) = none) :
    Moved w t (w.k.switchTask t none) x := by
  refine ⟨before, after, fun t' ht => switchTask_taskNs ht none, fun n => ?_, fun n hn => ?_⟩
  · rw [Freed.of_ipcns (switchTask_ipcns w.k t none)]
    simp [Frees, hdrops]
  · rw [Frees, hdrops] at hn
    cases hn.1

theorem Moved.drop {x : Pc} (before : w.pc t ≠ .running ∧ w.pc t ≠ .marked)
    (after : x ≠ .running ∧ x ≠ .marked) (hdrops : drops w (.exitNs t) = some o) :
    Moved w t (w.drop o).k x := by
  refine ⟨before, after, fun t' _ => .inl (drop_taskNs w o t'), fun n => ?_,
    fun _ _ t' => drop_taskNs w o t'⟩
  rw [drop_freed, Frees, hdrops, Option.some.injEq]

theorem drop_eq (w : World) (o : Seen) : w.drop o = { w with k := (w.drop o).k } := by
  unfold World.drop
  split <;> rfl

/-- **What a step of `exit_task_namespaces` does.** -/
theorem exitStep_cases (hs : w.exitStep t = some w') :
    ∃ k x, w' = { w with k := k }.setPc t x ∧ Moved w t k x := by
  unfold World.exitStep at hs
  split at hs
  next hpc =>
    have before : w.pc t ≠ .running ∧ w.pc t ≠ .marked := by simp [hpc]
    split at hs
    · cases hs
      exact ⟨_, _, rfl, .same before (by simp) (by simp [drops, hpc])⟩
    · cases hs
      exact ⟨_, _, rfl, .switch before (by simp) (by simp [drops, hpc])⟩
  next o hpc =>
    cases hs
    exact ⟨_, _, rfl, .same (by simp [hpc]) (by simp) (by simp [drops, hpc])⟩
  next o i hpc =>
    cases hs
    exact ⟨_, _, rfl, .switch (by simp [hpc]) (by simp) (by simp [drops, hpc])⟩
  next o i hpc =>
    cases hs
    refine ⟨(w.drop i).k, .dropped o, ?_, .drop (by simp [hpc]) (by simp) (by simp [drops, hpc])⟩
    rw [← drop_eq]
  next o hpc =>
    cases hs
    refine ⟨(w.drop o).k, .gone, ?_, .drop (by simp [hpc]) (by simp) (by simp [drops, hpc])⟩
    rw [← drop_eq]
  · cases hs

theorem Inv.exitNs (h : Inv w) (hs : w.exitStep t = some w') (hc : Careful w (.exitNs t)) :
    Inv w' := by
  obtain ⟨k, x, rfl, hmoved⟩ := exitStep_cases hs
  have hpc : ∀ t' y, y = .running ∨ y = .marked → Function.update w.pc t x t' = y →
      w.pc t' = y := by
    intro t' y hy hx
    by_cases ht : t' = t
    · subst ht
      rw [Function.update_self] at hx
      subst hx
      rcases hy with hy | hy
      · exact absurd hy hmoved.after.1
      · exact absurd hy hmoved.after.2
    · rwa [Function.update_of_ne ht] at hx
  refine ⟨?_, h.nodup, h.entry, fun t' n ht' => ?_,
    fun t' ht' => h.marked t' (hpc _ _ (.inr rfl) ht'),
    fun t' ht' => h.running t' (hpc _ _ (.inl rfl) ht')⟩
  · intro n hwant hfreed
    have hwant' : Wanted w n := by
      rcases hwant with ⟨t', ht'⟩ | ⟨t', e, hrun, he, hunq, hns⟩
      · exact .inl ⟨t', ht'⟩
      · have hrun' := hpc t' .running (.inl rfl) hrun
        have hne : t' ≠ t := by
          rintro rfl
          exact hmoved.before.1 hrun'
        have hns' : k.ipcnsTaskNs t' = n := hns
        rcases hmoved.taskNs t' hne with hsame | hzero
        · exact .inr ⟨t', e, hrun', he, hunq, hsame.symm.trans hns'⟩
        · exact absurd (hns'.symm.trans hzero) hfreed.1
    rcases (hmoved.freed n).1 hfreed with hfreed | hfrees
    · exact h.live n hwant' hfreed
    · exact hc n hfrees hwant'
  · refine (h.queued t' n ht').imp_right fun hm => ?_
    have hne : t' ≠ t := by
      rintro rfl
      exact hmoved.before.2 hm
    exact (Function.update_of_ne hne _ _).trans hm

/-- The task goes past the hook without an entry to be queued. -/
theorem Inv.pass (h : Inv w) (hpc : w.pc t = .running) : Inv (w.setPc t .exiting) := by
  have hother : ∀ t' y, y ≠ .exiting → Function.update w.pc t .exiting t' = y → w.pc t' = y := by
    intro t' y hy hx
    rcases eq_or_ne t' t with rfl | ht
    · rw [Function.update_self] at hx
      exact absurd hx.symm hy
    · rwa [Function.update_of_ne ht] at hx
  refine ⟨?_, h.nodup, h.entry, fun t' n ht' => ?_,
    fun t' ht' => h.marked t' (hother t' .marked (by simp) ht'),
    fun t' ht' => h.running t' (hother t' .running (by simp) ht')⟩
  · rintro n (⟨t', ht'⟩ | ⟨t', e, hrun, he⟩)
    · exact h.live n (.inl ⟨t', ht'⟩)
    · exact h.live n (.inr ⟨t', e, hother t' .running (by simp) hrun, he⟩)
  · refine (h.queued t' n ht').imp_right fun hm => ?_
    have hne : t' ≠ t := by
      rintro rfl
      rw [hpc] at hm
      cases hm
    exact (Function.update_of_ne hne _ _).trans hm

/-- The hook records the namespace that the task is in. -/
theorem Inv.record (h : Inv w) (hpc : w.pc t = .running) (he : w.entry t = some e)
    (hunq : e.deferQueued = false) :
    Inv ((w.setEntry t (some ⟨true, w.k.ipcnsTaskNs t⟩)).setPc t .marked) := by
  have hnot := h.running t hpc
  refine ⟨?_, h.nodup, fun t' ht' => ?_, fun t' n ht' => ?_, fun t' ht' => ?_, fun t' ht' => ?_⟩
  · rintro n (⟨t', ht'⟩ | ⟨t', e', hrun, he', hunq', hns⟩)
    · rcases eq_or_ne t' t with rfl | ht
      · have hn : w.k.ipcnsTaskNs t' = n := by simpa [World.setPc, World.setEntry] using ht'
        exact h.live n (.inr ⟨t', e, hpc, he, hunq, hn⟩)
      · have ht'' : w.entry t' = some ⟨true, n⟩ := by
          simpa [World.setPc, World.setEntry, ht] using ht'
        exact h.live n (.inl ⟨t', ht''⟩)
    · have ht : t' ≠ t := by
        rintro rfl
        simp [World.setPc] at hrun
      have hrun' : w.pc t' = .running := by simpa [World.setPc, World.setEntry, ht] using hrun
      have he'' : w.entry t' = some e' := by simpa [World.setPc, World.setEntry, ht] using he'
      exact h.live n (.inr ⟨t', e', hrun', he'', hunq', hns⟩)
  · have ht : t' ≠ t := fun heq => hnot (heq ▸ ht')
    obtain ⟨n, hn⟩ := h.entry t' ht'
    exact ⟨n, (Function.update_of_ne ht _ _).trans hn⟩
  · rcases eq_or_ne t' t with rfl | ht
    · exact .inr (Function.update_self ..)
    · have ht'' : w.entry t' = some ⟨true, n⟩ := by
        simpa [World.setPc, World.setEntry, ht] using ht'
      exact (h.queued t' n ht'').imp_right (Function.update_of_ne ht _ _).trans
  · rcases eq_or_ne t' t with rfl | ht
    · exact ⟨hnot, _, Function.update_self ..⟩
    · have ht'' : w.pc t' = .marked := by simpa [World.setPc, World.setEntry, ht] using ht'
      obtain ⟨hmem, n, hn⟩ := h.marked t' ht''
      exact ⟨hmem, n, (Function.update_of_ne ht _ _).trans hn⟩
  · have ht : t' ≠ t := by
      rintro rfl
      simp [World.setPc] at ht'
    exact h.running t' (by simpa [World.setPc, World.setEntry, ht] using ht')

theorem Inv.mark (h : Inv w) (hs : step w (.mark t) = some w') : Inv w' := by
  simp only [step] at hs
  split at hs
  next hrun =>
    split at hs
    next n he =>
      cases hs
      exact h.record hrun he rfl
    · cases hs
      exact h.pass hrun
  · cases hs

theorem Inv.queue (h : Inv w) (hs : step w (.queue t) = some w') : Inv w' := by
  simp only [step] at hs
  split at hs
  next hmarked =>
    cases hs
    obtain ⟨hnot, n₀, hn₀⟩ := h.marked t hmarked
    have hpending : ∀ t', t' ∈ World.pending ({ w with deferred := w.deferred ++ [t] }.setPc t
        .exiting) ↔ t' ∈ w.pending ∨ t' = t := by
      intro t'
      simp [World.pending, World.setPc, or_assoc]
    have hother : ∀ t' y, y ≠ .exiting → Function.update w.pc t .exiting t' = y →
        t' ≠ t ∧ w.pc t' = y := by
      intro t' y hy hx
      rcases eq_or_ne t' t with rfl | ht
      · rw [Function.update_self] at hx
        exact absurd hx.symm hy
      · exact ⟨ht, by rwa [Function.update_of_ne ht] at hx⟩
    refine ⟨?_, ?_, fun t' ht' => ?_, fun t' n ht' => ?_, fun t' ht' => ?_, fun t' ht' => ?_⟩
    · rintro n (⟨t', ht'⟩ | ⟨t', e, hrun, he⟩)
      · exact h.live n (.inl ⟨t', ht'⟩)
      · exact h.live n (.inr ⟨t', e, (hother t' .running (by simp) hrun).2, he⟩)
    · have heq : World.pending ({ w with deferred := w.deferred ++ [t] }.setPc t .exiting) =
          w.pending ++ [t] := by simp [World.pending, World.setPc]
      rw [heq]
      exact (List.perm_append_singleton t w.pending).nodup_iff.2 (List.nodup_cons.2 ⟨hnot, h.nodup⟩)
    · rcases (hpending t').1 ht' with hmem | rfl
      · exact h.entry t' hmem
      · exact ⟨n₀, hn₀⟩
    · rcases eq_or_ne t' t with rfl | ht
      · exact .inl ((hpending t').2 (.inr rfl))
      · rcases h.queued t' n ht' with hmem | hm
        · exact .inl ((hpending t').2 (.inl hmem))
        · exact .inr ((Function.update_of_ne ht _ _).trans hm)
    · obtain ⟨ht, hm⟩ := hother t' .marked (by simp) ht'
      obtain ⟨hmem, hn⟩ := h.marked t' hm
      exact ⟨fun hin => ((hpending t').1 hin).elim hmem ht, hn⟩
    · obtain ⟨ht, hm⟩ := hother t' .running (by simp) ht'
      exact fun hin => ((hpending t').1 hin).elim (h.running t' hm) ht
  · cases hs

/-- The worker takes the next entry, or is done with one more part of it. -/
theorem Inv.repend (h : Inv w) {d : List ℕ} {x : Option (ℕ × Stage)}
    (hpending : World.pending { w with deferred := d, worker := x } = w.pending) :
    Inv { w with deferred := d, worker := x } := by
  refine ⟨h.live, ?_, ?_, ?_, ?_, ?_⟩ <;> rw [hpending]
  · exact h.nodup
  · exact h.entry
  · exact h.queued
  · exact h.marked
  · exact h.running

/-- It frees the entry. -/
theorem Inv.free (h : Inv w) {st : Stage} (hat : w.worker = some (t, st)) :
    Inv { w.setEntry t none with worker := none } := by
  have hpending : w.pending = t :: w.deferred := by simp [World.pending, hat]
  have hafter : World.pending { w.setEntry t none with worker := none } = w.deferred := by
    simp [World.pending, World.setEntry]
  have hnodup := h.nodup
  rw [hpending, List.nodup_cons] at hnodup
  have hsub : ∀ t', t' ∈ w.deferred → t' ∈ w.pending := fun t' ht' => by
    rw [hpending]
    exact List.mem_cons_of_mem _ ht'
  have hentry : ∀ t' e, Function.update w.entry t none t' = some e →
      t' ≠ t ∧ w.entry t' = some e := by
    intro t' e he
    rcases eq_or_ne t' t with rfl | ht
    · rw [Function.update_self] at he
      cases he
    · exact ⟨ht, by rwa [Function.update_of_ne ht] at he⟩
  have hmarked : ∀ t', w.pc t' = .marked → t' ≠ t := by
    rintro t' hm rfl
    exact (h.marked t' hm).1 (by rw [hpending]; exact List.mem_cons_self)
  refine ⟨?_, by rw [hafter]; exact hnodup.2, fun t' ht' => ?_, fun t' n ht' => ?_,
    fun t' ht' => ?_, fun t' ht' => ?_⟩
  · rintro n (⟨t', ht'⟩ | ⟨t', e, hrun, he, hrest⟩)
    · exact h.live n (.inl ⟨t', (hentry t' _ ht').2⟩)
    · exact h.live n (.inr ⟨t', e, hrun, (hentry t' _ he).2, hrest⟩)
  · rw [hafter] at ht'
    obtain ⟨n, hn⟩ := h.entry t' (hsub t' ht')
    have ht : t' ≠ t := fun heq => hnodup.1 (heq ▸ ht')
    exact ⟨n, (Function.update_of_ne ht _ _).trans hn⟩
  · obtain ⟨ht, he⟩ := hentry t' _ ht'
    rw [hafter]
    refine (h.queued t' n he).imp_left fun hmem => ?_
    rw [hpending] at hmem
    exact (List.mem_cons.1 hmem).resolve_left ht
  · rw [hafter]
    obtain ⟨hmem, n, hn⟩ := h.marked t' ht'
    exact ⟨fun hin => hmem (hsub t' hin), n, (Function.update_of_ne (hmarked t' ht') _ _).trans hn⟩
  · rw [hafter]
    exact fun hin => h.running t' ht' (hsub t' hin)

theorem Inv.work (h : Inv w) (hs : w.workStep = some w') : Inv w' := by
  unfold World.workStep at hs
  split at hs
  next hidle =>
    split at hs
    · cases hs
    next t rest hdef =>
      cases hs
      exact h.repend (by simp [World.pending, hidle, hdef])
  next t hat =>
    cases hs
    exact h.repend (by simp [World.pending, hat])
  next t hat =>
    cases hs
    exact h.repend (by simp [World.pending, hat])
  next t hat =>
    cases hs
    exact h.free hat

theorem step_inv (h : Inv w) (hc : Careful w act) (hs : step w act = some w') : Inv w' := by
  cases act with
  | mark t => exact h.mark hs
  | queue t => exact h.queue hs
  | exitNs t => exact h.exitNs hs hc
  | work => exact h.work hs

theorem run_inv (h₀ : Start w₀) (h : RunIf step Careful w₀ w) : Inv w :=
  h.inv h₀.inv fun _ _ _ hi hc hs => step_inv hi hc hs

/-! ## A step that is not careful -/

/-- An entry that is to be applied records a namespace that has been freed. -/
structure Doomed (w : World) (t n : ℕ) : Prop where
  entry : w.entry t = some ⟨true, n⟩
  freed : Freed w.k n

theorem Doomed.not_live {st : Stage} (h : Doomed w t n) (hat : w.worker = some (t, st)) :
    ¬Live w := by
  intro hlive
  obtain ⟨e, he, hfreed⟩ := hlive t st hat
  rw [h.entry] at he
  cases he
  exact hfreed h.freed

theorem work_last (hat : w.worker = some (t', .shmDone)) :
    Run step w { w.setEntry t' none with worker := none } := by
  have hs : step w .work = some { w.setEntry t' none with worker := none } := by
    simp [step, World.workStep, hat]
  exact RunIf.snoc .refl trivial hs

theorem work_undone (hat : w.worker = some (t', .undone)) :
    Run step w { w.setEntry t' none with worker := none } := by
  have hs : step w .work = some { w with worker := some (t', .shmDone) } := by
    simp [step, World.workStep, hat]
  have hlast : Run step { w with worker := some (t', .shmDone) } _ := work_last rfl
  exact (RunIf.snoc .refl trivial hs).trans hlast

/-- The worker gets done with the entry that it applies. -/
theorem work_off {st : Stage} (hat : w.worker = some (t', st)) :
    Run step w { w.setEntry t' none with worker := none } := by
  cases st with
  | popped =>
    have hs : step w .work = some { w with worker := some (t', .undone) } := by
      simp [step, World.workStep, hat]
    have hlast : Run step { w with worker := some (t', .undone) } _ := work_undone rfl
    exact (RunIf.snoc .refl trivial hs).trans hlast
  | undone => exact work_undone hat
  | shmDone => exact work_last hat

/-- Another entry is freed. -/
theorem Doomed.off (h : Doomed w t n) (ht : t ≠ t') :
    Doomed { w.setEntry t' none with worker := none } t n :=
  ⟨(Function.update_of_ne ht _ _).trans h.entry, h.freed⟩

/-- The worker gets to an entry that is on the list. -/
theorem Doomed.listed (h : Doomed w t n) (hidle : w.worker = none) (hmem : t ∈ w.deferred) :
    ∃ w', Run step w w' ∧ ¬Live w' := by
  obtain ⟨l, hl⟩ : ∃ l, l = w.deferred := ⟨_, rfl⟩
  induction l generalizing w with
  | nil =>
    rw [← hl] at hmem
    cases hmem
  | cons u rest ih =>
    have hs : step w .work = some { w with deferred := rest, worker := some (u, .popped) } := by
      simp [step, World.workStep, hidle, ← hl]
    have hpop : Doomed { w with deferred := rest, worker := some (u, .popped) } t n :=
      ⟨h.entry, h.freed⟩
    rcases eq_or_ne t u with rfl | hne
    · exact ⟨_, RunIf.snoc .refl trivial hs, hpop.not_live rfl⟩
    · have hoff : Run step { w with deferred := rest, worker := some (u, .popped) } _ :=
        work_off rfl
      rw [← hl] at hmem
      obtain ⟨w', hrun, hbad⟩ := ih (hpop.off hne) rfl ((List.mem_cons.1 hmem).resolve_left hne) rfl
      exact ⟨w', ((RunIf.snoc .refl trivial hs).trans hoff).trans hrun, hbad⟩

theorem Doomed.reached (h : Doomed w t n) (hmem : t ∈ w.pending) :
    ∃ w', Run step w w' ∧ ¬Live w' := by
  cases hw : w.worker with
  | none => exact h.listed hw (by simpa [World.pending, hw] using hmem)
  | some x =>
    obtain ⟨u, st⟩ := x
    rcases eq_or_ne t u with rfl | hne
    · exact ⟨w, .refl, h.not_live hw⟩
    · have hdef : t ∈ w.deferred := by simpa [World.pending, hw, hne] using hmem
      obtain ⟨w', hrun, hbad⟩ := (h.off hne).listed rfl hdef
      exact ⟨w', (work_off hw).trans hrun, hbad⟩

/-- A task that has marked its entry puts it on the list. -/
theorem Doomed.marked (h : Doomed w t n) (hpc : w.pc t = .marked) :
    ∃ w', Run step w w' ∧ ¬Live w' := by
  have hs : step w (.queue t) =
      some ({ w with deferred := w.deferred ++ [t] }.setPc t .exiting) := by
    simp [step, hpc]
  have hnext : Doomed ({ w with deferred := w.deferred ++ [t] }.setPc t .exiting) t n :=
    ⟨h.entry, h.freed⟩
  obtain ⟨w', hrun, hbad⟩ := hnext.reached (by simp [World.pending, World.setPc])
  exact ⟨w', (RunIf.snoc .refl trivial hs).trans hrun, hbad⟩

/-- A task before the hook records a namespace that has been freed. -/
theorem doomed_running (hpc : w.pc t = .running) (he : w.entry t = some e)
    (hunq : e.deferQueued = false) (hfreed : Freed w.k (w.k.ipcnsTaskNs t)) :
    ∃ w', Run step w w' ∧ ¬Live w' := by
  obtain ⟨q, ns⟩ := e
  dsimp only at hunq
  subst hunq
  have hs : step w (.mark t) =
      some ((w.setEntry t (some ⟨true, w.k.ipcnsTaskNs t⟩)).setPc t .marked) := by
    simp [step, hpc, he]
  have hnext : Doomed ((w.setEntry t (some ⟨true, w.k.ipcnsTaskNs t⟩)).setPc t .marked) t
      (w.k.ipcnsTaskNs t) := ⟨Function.update_self .., hfreed⟩
  obtain ⟨w', hrun, hbad⟩ := hnext.marked (Function.update_self ..)
  exact ⟨w', (RunIf.snoc .refl trivial hs).trans hrun, hbad⟩

/-- After a step that is not careful the worker uses a namespace that has been freed, if
    nothing happens in between. -/
theorem careless (h : Inv w) (hs : step w act = some w') (hc : ¬Careful w act) :
    ∃ w'', Run step w' w'' ∧ ¬Live w'' := by
  simp only [Careful, not_forall, not_not] at hc
  obtain ⟨n, hfrees, hwant⟩ := hc
  cases act with
  | exitNs t =>
    obtain ⟨k, x, rfl, hmoved⟩ := exitStep_cases hs
    have hfreed : Freed k n := (hmoved.freed n).2 (.inr hfrees)
    rcases hwant with ⟨u, hu⟩ | ⟨u, e, hrun, he, hunq, rfl⟩
    · have hdoomed : Doomed ({ w with k := k }.setPc t x) u n := ⟨hu, hfreed⟩
      rcases h.queued u n hu with hmem | hm
      · exact hdoomed.reached hmem
      · have hne : u ≠ t := by
          rintro rfl
          exact hmoved.before.2 hm
        exact hdoomed.marked ((Function.update_of_ne hne _ _).trans hm)
    · have hne : u ≠ t := by
        rintro rfl
        exact hmoved.before.1 hrun
      refine doomed_running ((Function.update_of_ne hne _ _).trans hrun) he hunq ?_
      have hstay : k.ipcnsTaskNs u = w.k.ipcnsTaskNs u := hmoved.stay _ hfrees u
      show Freed k (k.ipcnsTaskNs u)
      rw [hstay]
      exact hfreed
  | mark t => cases hfrees.1
  | queue t => cases hfrees.1
  | work => cases hfrees.1

/-- **The recorded namespace.**  In a run whose steps free no namespace that an entry
    records, or will record, the namespace of the entry that the worker applies is there;
    a step that frees one leads to a state in which it is not. -/
theorem recorded_live (h₀ : Start w₀) (h : RunIf step Careful w₀ w) :
    Live w ∧ ∀ act w', step w act = some w' → ¬Careful w act →
      ∃ w'', Run step w' w'' ∧ ¬Live w'' :=
  ⟨(run_inv h₀ h).safe, fun _ _ hs hc => careless (run_inv h₀ h) hs hc⟩

/-! ## A task alone in its namespace -/

/-- Task 1 has been forked and has called `unshare(CLONE_NEWIPC)`; it has an entry. -/
def alone : World where
  k := (exec Kernel.step (Kernel.init ⟨true, true, true, true, false⟩)
    [.fork 0 0 ⟨true, true, true, 0, 0, 0, 0, 0, 0, 0, 0, false⟩,
      .unshare 1 CLONE_NEWIPC ⟨true, true, true, 0, 0, 0, 0, 0, 0, 0, 0, false⟩]).getD
    (Kernel.init ⟨true, true, true, true, false⟩)
  entry := fun t => if t = 1 then some ⟨false, 0⟩ else none
  deferred := []
  pc := fun _ => .running
  worker := none

theorem alone_start : Start alone := by
  have hone : ∀ t e, alone.entry t = some e → t = 1 ∧ e = ⟨false, 0⟩ := by
    intro t e he
    simp only [alone] at he
    split at he
    next ht => exact ⟨ht, (Option.some.inj he).symm⟩
    · cases he
  have hlive : ¬Freed alone.k (alone.k.ipcnsTaskNs 1) := by
    unfold Freed
    decide
  refine ⟨rfl, rfl, fun _ => rfl, fun t e he => ?_, fun t e he => ?_⟩
  · rw [(hone t e he).2]
  · rw [(hone t e he).1]
    exact hlive

/-- It drops the last reference of its namespace before the worker gets to its entry. -/
theorem recorded_freed : ∃ w₀ w, Start w₀ ∧ Run step w₀ w ∧ ¬Live w := by
  obtain ⟨w, hrun, hw⟩ := exec_check step alone
    [.mark 1, .queue 1, .exitNs 1, .exitNs 1, .exitNs 1, .exitNs 1, .exitNs 1, .work]
    (fun w => decide (w.worker = some (1, .popped) ∧ w.entry 1 = some ⟨true, 1⟩ ∧
      w.k.ipcnsIsOurs 1 = false)) (by decide)
  obtain ⟨hat, hentry, hfreed⟩ := of_decide_eq_true hw
  exact ⟨alone, w, alone_start, hrun,
    Doomed.not_live ⟨hentry, Nat.one_ne_zero, hfreed⟩ hat⟩

/-- The worker is quicker. -/
theorem recorded_live_alone : ∃ w, RunIf step Careful alone w ∧ w.worker = some (1, .popped) ∧
    Live w ∧ ∀ act w', step w act = some w' → ¬Careful w act →
      ∃ w'', Run step w' w'' ∧ ¬Live w'' := by
  have hcareful : ∀ w act, decide (drops w act = none) = true → Careful w act := by
    intro w act hno n hfrees
    rw [Frees, of_decide_eq_true hno] at hfrees
    cases hfrees.1
  obtain ⟨w, hrun, hw⟩ := execIf_check step (fun w act => decide (drops w act = none)) hcareful
    alone [.mark 1, .queue 1, .exitNs 1, .work]
    (fun w => decide (w.worker = some (1, .popped))) (by decide)
  exact ⟨w, hrun, of_decide_eq_true hw, recorded_live alone_start hrun⟩

end DroidLkm.Tasks.ExitNs
