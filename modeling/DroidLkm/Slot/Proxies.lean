/-
  Namespaces of tasks — an nsproxy is there as long as a task names it.

  * `Backed`: the count of every nsproxy covers the tasks that name it, and `d`
    more; one lemma for each function says how `d` changes;
  * `run_nsproxy`: in every reachable state a live task's nsproxy is there.
-/
import Mathlib.Algebra.Group.Pi.Basic
import DroidLkm.Lib.Census
import DroidLkm.Slot.Effects
import DroidLkm.Slot.Machine

namespace DroidLkm.Slot.Kernel

open Machine

/-- How many tasks name an nsproxy. -/
def users (k : Kernel) (q : ℕ) : ℤ :=
  Census.count (fun x : Task => x.nsproxy == some q) k.nextTask fun t => some (k.task t)

/-- The count of an nsproxy, 0 when it has been freed. -/
def uses (k : Kernel) (q : ℕ) : ℤ :=
  match k.nsp q with
  | none => 0
  | some x => x.count

/-- One for the object that is named. -/
def tok (o : Option ℕ) (q : ℕ) : ℤ := if o = some q then 1 else 0

/-- The counts cover the tasks, with `d` to spare. -/
def Backed (k : Kernel) (d : ℕ → ℤ) : Prop := ∀ q, k.users q + d q ≤ k.uses q

variable {k k' k₁ k₂ : Kernel} {t tsk p q n : ℕ} {new : Option ℕ} {flags : Flags} {e : Env}
  {x y : Nsproxy} {newPid newIpc : Option ℕ} {d : ℕ → ℤ}

theorem tok_nonneg (o : Option ℕ) (q : ℕ) : 0 ≤ tok o q := by
  unfold tok
  split <;> omega

theorem tok_none (q : ℕ) : tok none q = 0 := rfl

theorem uses_nonneg (k : Kernel) (q : ℕ) : 0 ≤ k.uses q := by
  unfold uses
  split <;> omega

/-! ## One object -/

theorem Backed.mono {d' : ℕ → ℤ} (h : Backed k d) (hd : ∀ q, d' q ≤ d q) : Backed k d' := by
  intro q
  have := h q
  have := hd q
  omega

theorem Backed.drop (h : Backed k (d + tok new)) : Backed k d := by
  refine h.mono ?_
  intro q
  have := tok_nonneg new q
  rw [Pi.add_apply]
  omega

theorem Backed.quiet (h : Backed k d) (hq : Quiet k k') : Backed k' d := by
  intro q
  have := h q
  rwa [users, uses, hq.task, hq.nextTask, hq.nsp]

/-- The proxies of the tasks are there. -/
theorem Backed.nsproxy (h : Backed k d) (hd : ∀ q, 0 ≤ d q) (ht : t < k.nextTask)
    (hq : (k.task t).nsproxy = some q) : ∃ x, k.nsp q = some x := by
  have hpos : 0 < k.users q :=
    Census.count_pos (f := fun t => some (k.task t)) ht rfl (by simp [hq])
  have hb := h q
  have h0 := hd q
  cases hx : k.nsp q with
  | none =>
    simp only [uses, hx] at hb
    omega
  | some x => exact ⟨x, rfl⟩

theorem users_setTask (ht : t < k.nextTask) (v : Task) (q : ℕ) :
    ({ k with task := Function.update k.task t v } : Kernel).users q =
      k.users q + (tok v.nsproxy q - tok (k.task t).nsproxy q) := by
  have hu : (fun s => some (Function.update k.task t v s)) =
      Function.update (fun s => some (k.task s)) t (some v) := by
    funext s
    by_cases hs : s = t
    · subst hs; simp
    · simp [hs]
  have hind : ∀ v : Task, Census.ind (fun x : Task => x.nsproxy == some q) (some v) =
      tok v.nsproxy q := by
    intro v
    simp [Census.ind, tok]
  simp only [users, hu]
  rw [Census.count_update ht, hind, hind]

theorem Backed.setTask (h : Backed k d) (ht : t < k.nextTask) (new : Option ℕ) :
    Backed (k.setTask t new) (d + tok (k.task t).nsproxy - tok new) := by
  intro q
  have hu : (k.setTask t new).users q = _ := users_setTask ht _ q
  have hb := h q
  rw [hu]
  show _ ≤ k.uses q
  simp only [Pi.add_apply, Pi.sub_apply]
  omega

theorem Backed.setNsp (h : Backed k d) {d' : ℕ → ℤ} {v : Option Nsproxy}
    (hd : ∀ q', q' ≠ q → d' q' = d q')
    (hq : d' q - d q ≤ ({ k with nsp := Function.update k.nsp q v } : Kernel).uses q - k.uses q) :
    Backed { k with nsp := Function.update k.nsp q v } d' := by
  intro q'
  have hb := h q'
  show k.users q' + _ ≤ _
  by_cases he : q' = q
  · subst he
    omega
  · have : ({ k with nsp := Function.update k.nsp q v } : Kernel).uses q' = k.uses q' := by
      simp [uses, he]
    rw [this, hd q' he]
    exact hb

theorem Backed.modifyNsp (h : Backed k d) {f : Nsproxy → Nsproxy}
    (hf : ∀ x, x.count ≤ (f x).count) (q : ℕ) : Backed (k.modifyNsp q f) d := by
  refine h.setNsp (fun q' _ => rfl) ?_
  cases hx : k.nsp q with
  | none => simp [uses, hx]
  | some x =>
    have := hf x
    simp only [uses, hx, Function.update_self, Option.map_some]
    omega

theorem Backed.putNsproxy (h : Backed k (d + tok (some q))) : Backed (k.putNsproxy q) d := by
  refine h.setNsp ?_ ?_
  · intro q' hq'
    simp [tok, Ne.symm hq']
  · cases hx : k.nsp q with
    | none => simp [uses, hx, tok]
    | some x =>
      by_cases hc : x.count ≤ 1
      · simp only [uses, hx, Function.update_self, Option.bind_some, if_pos hc, Pi.add_apply, tok,
          if_true]
        omega
      · simp only [uses, hx, Function.update_self, Option.bind_some, if_neg hc, Pi.add_apply, tok,
          if_true]
        omega

theorem Backed.switchTask (h : Backed k (d + tok new)) (ht : t < k.nextTask) :
    Backed (k.switchTask t new) d := by
  have hs := h.setTask ht new
  unfold Kernel.switchTask
  cases hq : (k.task t).nsproxy with
  | none =>
    refine hs.mono ?_
    intro q
    simp only [hq, Pi.add_apply, Pi.sub_apply, tok_none]
    omega
  | some old =>
    refine Backed.putNsproxy (hs.mono ?_)
    intro q
    simp only [hq, Pi.add_apply, Pi.sub_apply]
    omega

/-! ## Switching -/

theorem Backed.switchRun (h : Backed k (d + tok new)) (ht : t < k.nextTask) :
    Backed (k.nsproxySwitchRun t new Kernel.switchTask) d := by
  have hs := h.switchTask ht
  unfold nsproxySwitchRun
  dsimp only
  split
  · exact hs.quiet (nsproxyDrop_quiet _ _)
  · exact hs

theorem Backed.switchTaskNamespaces (h : Backed k (d + tok new)) (ht : t < k.nextTask) :
    Backed (k.switchTaskNamespaces t new) d := by
  unfold Kernel.switchTaskNamespaces
  split
  · exact h.switchRun ht
  · exact h.switchTask ht

theorem Backed.exitTaskNamespaces (h : Backed k d) (ht : t < k.nextTask) :
    Backed (k.exitTaskNamespaces t) d := by
  have hs : Backed (k.switchTaskNamespaces t none) d := by
    refine Backed.switchTaskNamespaces (h.mono ?_) ht
    intro q
    simp only [Pi.add_apply, tok_none]
    omega
  unfold Kernel.exitTaskNamespaces
  split
  · unfold exitNsWrap
    dsimp only
    split
    · exact hs.quiet (nsproxyDrop_quiet _ _)
    · exact hs
  · exact hs

theorem Backed.nsproxySwitch (h : Backed k (d + tok new)) (ht : t < k.nextTask) :
    Backed (k.nsproxySwitch t new) d := by
  unfold Kernel.nsproxySwitch
  split
  · exact h.switchRun ht
  · exact h.drop

/-! ## Creating -/

/-- A new nsproxy has a count to spare. -/
theorem Backed.added (h : Backed k d) (hw : Wf k) (ha : Added k k' x) (hc : x.count = 1) :
    Backed k' (d + tok (some k.nextNsp)) := by
  intro q
  have hb := h q
  have husers : k'.users q = k.users q := by rw [users, users, ha.task, ha.nextTask]
  by_cases hq : q = k.nextNsp
  · subst hq
    have hfree : k.uses k.nextNsp = 0 := by
      cases hx : k.nsp k.nextNsp with
      | none => simp [uses, hx]
      | some x => exact absurd (hw.nsp _ x hx).1 (Nat.lt_irrefl _)
    simp only [husers, uses, ha.nsp, Function.update_self, hc, Pi.add_apply, tok, if_true]
    omega
  · have huses : k'.uses q = k.uses q := by simp [uses, ha.nsp, hq]
    rw [husers, huses]
    simpa [tok, Ne.symm hq] using hb

theorem Backed.createNewNamespaces {err : ℤ} (h : Backed k d) (hw : Wf k)
    (hr : k.createNewNamespaces flags t err = (k', .ok q)) : Backed k' (d + tok (some q)) := by
  obtain ⟨rfl, -, x, -, rfl⟩ := createNewNamespaces_ok hr
  exact h.added hw (added_pushNsp k _) rfl

theorem Backed.createEntry (h : Backed k d) (hw : Wf k)
    (hr : k.createEntry flags t tsk e = (k', .ok q)) : Backed k' (d + tok (some q)) := by
  obtain ⟨x, -, rfl, ha⟩ := createEntry_ok hr
  exact h.added hw ha rfl

theorem Backed.attach (h : Backed k d) (q : ℕ) (newPid newIpc : Option ℕ) :
    Backed (k.attach q newPid newIpc) d := by
  have hpid : Backed (k.attachPidNs q newPid) d := by
    cases newPid with
    | none => exact h
    | some n => exact h.modifyNsp (f := ({ · with pidNsForChildren := n })) (fun _ => Nat.le_refl _) q
  cases newIpc with
  | none => exact hpid
  | some n => exact hpid.modifyNsp (f := ({ · with ipcNs := some n })) (fun _ => Nat.le_refl _) q

/-! ## Children -/

/-- What is spare after a function that returns 0 or an error: until it returns
    0, the child is not counted with its parent's nsproxy. -/
def childSpare (d : ℕ → ℤ) (r : Kernel × ℤ) (tsk : ℕ) : ℕ → ℤ :=
  if r.2 = 0 then d else d - tok (r.1.task tsk).nsproxy

theorem Backed.copyNamespaces (hb : Backed k (d - tok (k.task tsk).nsproxy)) (hw : Wf k)
    (ht : tsk < k.nextTask) (hq : ∀ q, (k.task tsk).nsproxy = some q → ∃ x, k.nsp q = some x)
    (flags : Flags) (c : ℕ) (e : Env) :
    Backed (k.copyNamespaces flags c tsk e).1
      (childSpare d (k.copyNamespaces flags c tsk e) tsk) := by
  unfold Kernel.copyNamespaces childSpare
  split
  · cases hn : (k.task tsk).nsproxy with
    | none =>
      refine hb.mono ?_
      intro q
      simp [hn, tok_none]
    | some q =>
      obtain ⟨x, hx⟩ := hq q hn
      simp only [if_true]
      refine Backed.setNsp hb ?_ ?_
      · intro q' hq'
        simp [hn, tok, Ne.symm hq']
      · simp [hn, tok, uses, hx]
  split
  · exact hb
  split
  · exact hb
  · rcases hr : k.createEntry flags c tsk e with ⟨k₁, err | q⟩ <;> dsimp only
    · obtain ⟨hquiet, herr⟩ := createEntry_error hr
      rw [if_neg herr, hquiet.task]
      exact hb.quiet hquiet
    · obtain ⟨x, -, -, ha⟩ := createEntry_ok hr
      have hb₁ := (hb.createEntry hw hr).setTask (by rw [ha.nextTask]; exact ht) (some q)
      rw [if_pos rfl]
      refine hb₁.mono ?_
      intro q'
      simp only [ha.task, Pi.add_apply, Pi.sub_apply]
      omega

theorem Backed.cnPriv (h : Backed k d) (ht : tsk < k.nextTask) (inner : Flags)
    (newPid newIpc : Option ℕ) (hw : Wf k) :
    Backed (k.cnPriv inner tsk newPid newIpc e).1 d := by
  unfold Kernel.cnPriv
  split
  · exact h
  split
  · exact h
  · rcases hr : k.createNewNamespaces 0 tsk e.cnnPriv with ⟨k₁, err | q⟩ <;> dsimp only
    · obtain ⟨rfl, -⟩ := createNewNamespaces_error hr
      exact h.quiet (putNew_quiet _ _ _)
    · have hb := h.createNewNamespaces hw hr
      obtain ⟨-, -, x, -, rfl⟩ := createNewNamespaces_ok hr
      exact hb.switchTaskNamespaces ht

theorem Backed.cnAttach (h : Backed k d) (t : ℕ) (newPid newIpc : Option ℕ) :
    Backed (k.cnAttach t newPid newIpc) d := by
  unfold Kernel.cnAttach
  split
  · exact h
  next q _ =>
    have ha := h.attach q newPid newIpc
    dsimp only
    split
    · exact ha
    · exact ha.quiet (nsproxyHold_quiet _ _)

/-- A child that is not counted is one less. -/
theorem Backed.childSpare (h : Backed k d) (err : ℤ) :
    Backed k (Kernel.childSpare d (k, err) tsk) := by
  unfold Kernel.childSpare
  dsimp only
  split
  · exact h
  · refine h.mono ?_
    intro q
    have := tok_nonneg (k.task tsk).nsproxy q
    rw [Pi.sub_apply]
    omega

theorem childSpare_quiet {r : Kernel × ℤ} (h : Quiet r.1 k') :
    Kernel.childSpare d (k', r.2) tsk = Kernel.childSpare d r tsk := by
  unfold Kernel.childSpare
  rw [h.task]

theorem Backed.cnWrap (hb : Backed k (d - tok (k.task tsk).nsproxy)) (hw : Wf k)
    (ht : tsk < k.nextTask) (hq : ∀ q, (k.task tsk).nsproxy = some q → ∃ x, k.nsp q = some x)
    (flags : Flags) (c : ℕ) (e : Env) :
    Backed (k.cnWrap flags c tsk e).1 (Kernel.childSpare d (k.cnWrap flags c tsk e) tsk) := by
  have hc := hb.copyNamespaces hw ht hq flags c e
  have hheld : Backed (if (k.copyNamespaces flags c tsk e).2 = 0
      then (k.copyNamespaces flags c tsk e).1.holdOf tsk else (k.copyNamespaces flags c tsk e).1)
      (Kernel.childSpare d (if (k.copyNamespaces flags c tsk e).2 = 0
      then (k.copyNamespaces flags c tsk e).1.holdOf tsk else (k.copyNamespaces flags c tsk e).1,
      (k.copyNamespaces flags c tsk e).2) tsk) := by
    split
    · have hquiet := holdOf_quiet (k.copyNamespaces flags c tsk e).1 tsk
      rw [childSpare_quiet hquiet]
      exact hc.quiet hquiet
    · exact hc
  unfold Kernel.cnWrap
  dsimp only
  split
  · exact hheld
  split
  · exact hc
  split
  · exact hheld
  split
  · exact hc
  · have hn := hw.newNamespaces flags c tsk e
    rcases hr : k.newNamespaces flags c tsk e with ⟨k₁, err | ⟨newPid, newIpc⟩⟩ <;>
      rw [hr] at hn <;> dsimp only
    · obtain ⟨hquiet, herr, -⟩ := newNamespaces_error hr
      unfold Kernel.childSpare
      rw [if_neg herr, hquiet.task]
      exact hb.quiet hquiet
    · obtain ⟨hquiet, -⟩ := newNamespaces_ok hr
      have hb₁ : Backed k₁ (d - tok (k₁.task tsk).nsproxy) := by
        rw [hquiet.task]
        exact hb.quiet hquiet
      have ht₁ : tsk < k₁.nextTask := by
        rw [hquiet.nextTask]
        exact ht
      have hq₁ : ∀ q, (k₁.task tsk).nsproxy = some q → ∃ x, k₁.nsp q = some x := by
        rw [hquiet.task, hquiet.nsp]
        exact hq
      have hc₁ := hb₁.copyNamespaces hn.1.wf ht₁ hq₁ (without flags OURS) c e
      have hw₁ := hn.1.wf.copyNamespaces (without flags OURS) c ht₁ e
      split
      · next hret =>
        have hput := putNew_quiet (k₁.copyNamespaces (without flags OURS) c tsk e).1 newPid newIpc
        rw [childSpare_quiet hput]
        exact hc₁.quiet hput
      · next hret =>
        rw [not_not] at hret
        unfold Kernel.childSpare at hc₁
        rw [if_pos hret] at hc₁
        have ht₂ := Nat.lt_of_lt_of_le ht₁ hw₁.task
        have hp := hc₁.cnPriv (e := e) ht₂ (without flags OURS) newPid newIpc hw₁.wf
        split
        · exact hp.childSpare _
        · exact (hp.cnAttach tsk newPid newIpc).childSpare _

theorem Backed.copyEntry (hb : Backed k (d - tok (k.task tsk).nsproxy)) (hw : Wf k)
    (ht : tsk < k.nextTask) (hq : ∀ q, (k.task tsk).nsproxy = some q → ∃ x, k.nsp q = some x)
    (flags : Flags) (c : ℕ) (e : Env) :
    Backed (k.copyEntry flags c tsk e).1 (Kernel.childSpare d (k.copyEntry flags c tsk e) tsk) := by
  unfold Kernel.copyEntry
  split
  · exact hb.cnWrap hw ht hq flags c e
  · exact hb.copyNamespaces hw ht hq flags c e

/-- A new task with what another has is one more that names its nsproxy. -/
theorem Backed.newTask (h : Backed k d) (x : Task) :
    Backed { k with task := Function.update k.task k.nextTask x, nextTask := k.nextTask + 1 }
      (d - tok x.nsproxy) := by
  intro q
  have hb := h q
  have hu : (fun s => some (Function.update k.task k.nextTask x s)) =
      Function.update (fun s => some (k.task s)) k.nextTask (some x) := by
    funext s
    by_cases hs : s = k.nextTask
    · subst hs; simp
    · simp [hs]
  have hind : Census.ind (fun x : Task => x.nsproxy == some q) (some x) = tok x.nsproxy q := by
    simp [Census.ind, tok]
  simp only [users, hu, Pi.sub_apply]
  rw [Census.count_push, hind]
  show _ ≤ k.uses q
  simp only [users] at hb
  omega

/-- Where a task stands in the pid namespaces does not matter. -/
theorem Backed.setActive (h : Backed k d) (ht : t < k.nextTask) (n : ℕ) :
    Backed { k with task := Function.update k.task t { k.task t with activePidNs := n } } d := by
  intro q
  have hu := users_setTask ht { k.task t with activePidNs := n } q
  rw [hu]
  have hb := h q
  show _ ≤ k.uses q
  dsimp only
  omega

theorem Backed.kernelClone (h : Backed k d) (hw : Wf k) (ht : t < k.nextTask) (hd : ∀ q, 0 ≤ d q)
    (flags : Flags) (e : Env) : Backed (k.kernelClone flags t e).1 d := by
  unfold Kernel.kernelClone
  split
  · exact h
  have hw₁ := hw.newTask (k.task t) fun q hq => (hw.task t q hq).2
  have hself : (Function.update k.task k.nextTask (k.task t)) k.nextTask = k.task t :=
    Function.update_self _ _ _
  have hb₁ := h.newTask (k.task t)
  have hq₁ : ∀ q, (k.task t).nsproxy = some q → ∃ x, k.nsp q = some x := by
    intro q hq
    exact h.nsproxy hd ht hq
  generalize hk₁ : ({ k with
    task := Function.update k.task k.nextTask (k.task t)
    nextTask := k.nextTask + 1 } : Kernel) = k₁ at hw₁ hb₁
  have htask : k₁.task k.nextTask = k.task t := by rw [← hk₁]; exact hself
  have hlt : k.nextTask < k₁.nextTask := by rw [← hk₁]; exact Nat.lt_succ_self _
  have hc := Backed.copyEntry (d := d) (by rw [htask]; exact hb₁) hw₁.wf hlt
    (by rw [htask, ← hk₁]; exact hq₁) flags t e
  have hw₂ := hw₁.wf.copyEntry flags t hlt e
  dsimp only
  rw [hk₁]
  unfold Kernel.childSpare at hc
  split
  · next hret =>
    rw [if_neg hret] at hc
    refine (hc.setTask (Nat.lt_of_lt_of_le hlt hw₂.task) none).mono ?_
    intro q
    simp only [Pi.add_apply, Pi.sub_apply, tok_none]
    omega
  · next hret =>
    rw [not_not] at hret
    rw [if_pos hret] at hc
    have hlt₂ := Nat.lt_of_lt_of_le hlt hw₂.task
    split
    · exact hc.exitTaskNamespaces hlt₂
    · exact hc.setActive hlt₂ _

/-! ## `clone` and `clone3` -/

theorem Backed.cloneCtxEnter (h : Backed k d) (hw : Wf k) (ht : t < k.nextTask) (flags : Flags)
    (e : Env) : Backed (k.cloneCtxEnter flags t e).1 d := by
  unfold Kernel.cloneCtxEnter
  have hn := hw.newNamespaces flags t t e
  rcases hr : k.newNamespaces flags t t e with ⟨k₁, err | ⟨newPid, newIpc⟩⟩ <;> rw [hr] at hn <;>
    dsimp only
  · exact h.quiet (newNamespaces_error hr).1
  · have hquiet := (newNamespaces_ok hr).1
    have hb := h.quiet hquiet
    rcases hr' : k₁.createNewNamespaces 0 t e.cnnPriv with ⟨k₂, err | q⟩ <;> dsimp only
    · obtain ⟨rfl, -⟩ := createNewNamespaces_error hr'
      exact hb.quiet (putNew_quiet _ _ _)
    · have hb₂ := hb.createNewNamespaces hn.1.wf hr'
      obtain ⟨-, -, x, -, rfl⟩ := createNewNamespaces_ok hr'
      have hs := hb₂.switchTaskNamespaces (show t < k₁.nextTask from hquiet.nextTask ▸ ht)
      split
      · exact hs
      · exact hs.attach q newPid newIpc

theorem Backed.restore (h : Backed k d) (q : ℕ) (ctx : CloneCtx) : Backed (k.restore q ctx) d :=
  (h.modifyNsp (f := ({ · with pidNsForChildren := ctx.savePid }))
    (fun _ => Nat.le_refl _) q).modifyNsp
      (f := ({ · with ipcNs := ctx.saveIpc })) (fun _ => Nat.le_refl _) q

theorem Backed.cloneCtxLeave (h : Backed k d) (hw : Wf k) (ht : t < k.nextTask) (ctx : CloneCtx)
    (e : Env) : Backed (k.cloneCtxLeave t ctx e) d := by
  unfold Kernel.cloneCtxLeave
  rcases hr : k.createNewNamespaces 0 t e.cnnLeave with ⟨k₁, err | q⟩ <;> dsimp only
  · obtain ⟨rfl, -⟩ := createNewNamespaces_error hr
    split
    · exact h
    · exact h.restore _ ctx
  · have hb := h.createNewNamespaces hw hr
    obtain ⟨-, -, x, -, rfl⟩ := createNewNamespaces_ok hr
    exact (hb.restore q ctx).nsproxySwitch ht

theorem Backed.cloneBetween (h : Backed k d) (hw : Wf k) (ht : t < k.nextTask) (flags : Flags)
    (e : Env) {orig : Kernel → Kernel × Except ℤ ℕ} (ho : ∀ k, Wf k → Grows k (orig k).1)
    (hb : ∀ k, Wf k → t < k.nextTask → Backed k d → Backed (orig k).1 d) :
    Backed (k.cloneBetween flags t e orig).1 d := by
  unfold Kernel.cloneBetween
  split
  · exact h
  · have hn := hw.cloneCtxEnter flags ht e
    have he := h.cloneCtxEnter hw ht flags e
    rcases hr : k.cloneCtxEnter flags t e with ⟨k₁, err | ctx⟩ <;> rw [hr] at hn he <;> dsimp only
    · exact he
    · have ht₁ := Nat.lt_of_lt_of_le ht hn.1.task
      have hw₁ := ho k₁ hn.1.wf
      exact (hb k₁ hn.1.wf ht₁ he).cloneCtxLeave hw₁.wf (Nat.lt_of_lt_of_le ht₁ hw₁.task) ctx e

theorem Backed.sysClone (h : Backed k d) (hw : Wf k) (ht : t < k.nextTask) (hd : ∀ q, 0 ≤ d q)
    (flags : Flags) (e : Env) : Backed (k.sysClone flags t e).1 d := by
  unfold Kernel.sysClone
  split
  · exact h.kernelClone hw ht hd _ e
  · refine h.cloneBetween hw ht flags e (fun k hk => hk.kernelClone _ _ _) ?_
    intro k hk ht hb
    exact hb.kernelClone hk ht hd _ e

theorem Backed.kernelClone3 (h : Backed k d) (hw : Wf k) (ht : t < k.nextTask)
    (hd : ∀ q, 0 ≤ d q) (flags : Flags) (u : UserArgs) (e : Env) :
    Backed (k.kernelClone3 flags t u e).1 d := by
  unfold Kernel.kernelClone3
  split
  · exact h
  · exact h.kernelClone hw ht hd flags e

theorem Backed.sysClone3 (h : Backed k d) (hw : Wf k) (ht : t < k.nextTask) (hd : ∀ q, 0 ≤ d q)
    (flags : Flags) (u : UserArgs) (e : Env) : Backed (k.sysClone3 flags t u e).1 d := by
  unfold Kernel.sysClone3
  split
  · exact h.kernelClone3 hw ht hd flags u e
  · refine h.cloneBetween hw ht flags e ?_ ?_
    · intro k hk
      split
      · exact hk.refl
      · exact hk.kernelClone3 _ _ _ _
    · intro k hk ht hb
      split
      · exact hb
      · exact hb.kernelClone3 hk ht hd _ u e

/-! ## `unshare` and `setns` -/

theorem Backed.kernelUnshare (h : Backed k d) (hw : Wf k) (ht : t < k.nextTask) (flags : Flags)
    (e : Env) : Backed (k.kernelUnshare flags t e).1 d := by
  unfold Kernel.kernelUnshare
  split
  · exact h
  split
  · exact h
  split
  · exact h
  · rcases hr : k.createEntry flags t t e with ⟨k₁, err | q⟩ <;> dsimp only
    · exact h.quiet (createEntry_error hr).1
    · have hb := h.createEntry hw hr
      obtain ⟨x, -, -, ha⟩ := createEntry_ok hr
      exact hb.switchTaskNamespaces (by rw [ha.nextTask]; exact ht)

/-- A namespace is made, and no task and no nsproxy touched. -/
theorem ipcnsCreate_quiet (k : Kernel) (err : ℤ) : Quiet k (k.ipcnsCreate err).1 := by
  unfold Kernel.ipcnsCreate
  split <;> exact ⟨rfl, rfl, rfl, rfl, rfl, rfl, rfl⟩

theorem pidnsCreate_quiet (k : Kernel) (parent : ℕ) (err : ℤ) :
    Quiet k (k.pidnsCreate parent err).1 := by
  unfold Kernel.pidnsCreate
  dsimp only
  split_ifs <;> exact ⟨rfl, rfl, rfl, rfl, rfl, rfl, rfl⟩

theorem Backed.slotInstallIpcns (h : Backed k d) (t : ℕ) (e : Env) :
    Backed (k.slotInstallIpcns t e).1 d := by
  unfold Kernel.slotInstallIpcns
  have hb := h.quiet (ipcnsCreate_quiet k e.ipcns)
  rcases hr : k.ipcnsCreate e.ipcns with ⟨k₁, err | n⟩ <;> rw [hr] at hb <;> dsimp only
  · exact hb
  · split
    · exact hb.quiet (ipcnsPut_quiet k₁ (some n))
    · exact hb.attach _ none (some n)

theorem Backed.slotInstallPidns (h : Backed k d) (t : ℕ) (e : Env) :
    Backed (k.slotInstallPidns t e).1 d := by
  unfold Kernel.slotInstallPidns Kernel.pidnsCreateForCurrent
  generalize ((k.nsproxyOf t).map (·.pidNsForChildren)).getD 0 = p
  have hb := h.quiet (pidnsCreate_quiet k p e.pidns)
  rcases hr : k.pidnsCreate p e.pidns with ⟨k₁, err | n⟩ <;> rw [hr] at hb
  · exact hb
  · dsimp only
    split
    · exact hb.quiet (pidnsPut_quiet k₁ (some n))
    · exact hb.attach _ (some n) none

theorem Backed.sysUnshare (h : Backed k d) (hw : Wf k) (ht : t < k.nextTask) (flags : Flags)
    (e : Env) : Backed (Slot.sysUnshare (k.unshareOps t e) k flags).1 d := by
  have hu := fun flags => h.kernelUnshare hw ht flags e
  have hipc : ∀ k₁, Backed k₁ d → Backed (installIpcns (k.unshareOps t e) k₁ flags).1 d := by
    intro k₁ hb
    unfold installIpcns
    split
    · exact hb.slotInstallIpcns t e
    · exact hb
  have hpid : ∀ k₁, Backed k₁ d → Backed (installPidns (k.unshareOps t e) k₁ flags).1 d := by
    intro k₁ hb
    unfold installPidns
    split
    · exact hb.slotInstallPidns t e
    · exact hb
  unfold Slot.sysUnshare unshareLegacy
  simp only [flushIpc, unshareOps, id_eq, ite_self]
  split
  · exact hu flags
  split
  · exact hu flags
  split
  · exact h
  split
  · split
    · exact hu _
    split
    · exact hipc _ (hu _)
    · exact hpid _ (hipc _ (hu _))
  · exact hu flags

/-- No task names what has not been given out. -/
theorem users_fresh (hw : Wf k) (hq : k.nextNsp ≤ q) : k.users q = 0 := by
  have hzero : ∀ n, Census.count (fun x : Task => x.nsproxy == some q) n
      (fun t => some (k.task t)) = 0 := by
    intro n
    induction n with
    | zero => rfl
    | succ n ih =>
      have hne : ((k.task n).nsproxy == some q) = false := by
        rw [beq_eq_false_iff_ne]
        intro hq'
        exact absurd (hw.task n q hq').2 (Nat.not_lt.2 hq)
      rw [Census.count_succ, ih]
      simp [Census.ind, hne]
  exact hzero k.nextTask

theorem Backed.setnsRun (h : Backed k 0) (hw : Wf k) (ht : t < k.nextTask) (e : Env)
    {install : Kernel → ℕ → Kernel × ℤ}
    (hi : ∀ k₁ q d, Backed k₁ d → Backed (install k₁ q).1 d ∧
      (install k₁ q).1.task = k₁.task ∧ (install k₁ q).1.nextTask = k₁.nextTask) :
    Backed (k.setnsRun t e install).1 0 := by
  unfold Kernel.setnsRun
  rcases hr : k.createEntry 0 t t e with ⟨k₁, err | q⟩ <;> dsimp only
  · exact h.quiet (createEntry_error hr).1
  · have hb := h.createEntry hw hr
    obtain ⟨x, -, rfl, ha⟩ := createEntry_ok hr
    obtain ⟨hb₁, htask, hnext⟩ := hi k₁ k.nextNsp _ hb
    split
    · -- the nsproxy that is freed is named by no task
      have husers : (install k₁ k.nextNsp).1.users = k.users := by
        funext q
        rw [users, users, htask, hnext, ha.task, ha.nextTask]
      intro q
      by_cases hq : q = k.nextNsp
      · have h0 := users_fresh hw (Nat.le_of_eq hq.symm)
        have hnn := uses_nonneg ({ (install k₁ k.nextNsp).1 with
          nsp := Function.update (install k₁ k.nextNsp).1.nsp k.nextNsp none }) q
        show (install k₁ k.nextNsp).1.users q + 0 ≤ _
        rw [husers, h0]
        exact hnn
      · have hbq := hb₁ q
        have hsame : ({ (install k₁ k.nextNsp).1 with
            nsp := Function.update (install k₁ k.nextNsp).1.nsp k.nextNsp none } : Kernel).uses q =
            (install k₁ k.nextNsp).1.uses q := by simp [uses, hq]
        show (install k₁ k.nextNsp).1.users q + 0 ≤ _
        rw [hsame]
        simpa [tok, Ne.symm hq] using hbq
    · exact hb₁.switchTaskNamespaces (by rw [hnext, ha.nextTask]; exact ht)

/-! ## Runs -/

variable {act : Act} {cfg : Config}

/-- What an installation writes keeps the counts. -/
theorem install_backed (f : Nsproxy → Nsproxy) (hf : ∀ x, (f x).count = x.count) (h : Backed k d) :
    Backed (k.modifyNsp q f) d ∧ (k.modifyNsp q f).task = k.task ∧
      (k.modifyNsp q f).nextTask = k.nextTask :=
  ⟨h.modifyNsp (fun x => Nat.le_of_eq (hf x).symm) q, rfl, rfl⟩

/-- **A call keeps every nsproxy that a task names.** -/
theorem step_backed (h : Backed k 0) (hw : Wf k) (hs : k.step act = some k') : Backed k' 0 := by
  have h0 : ∀ q, (0 : ℤ) ≤ (0 : ℕ → ℤ) q := fun q => Int.le_refl 0
  cases act with
  | fork t flags e =>
    obtain ⟨ht, rfl⟩ := by simpa [step] using hs
    exact h.kernelClone hw (hw.live ht) h0 _ e
  | clone t flags e =>
    obtain ⟨ht, rfl⟩ := by simpa [step] using hs
    exact h.sysClone hw (hw.live ht) h0 flags e
  | clone3 t flags u e =>
    obtain ⟨ht, rfl⟩ := by simpa [step] using hs
    exact h.sysClone3 hw (hw.live ht) h0 flags u e
  | unshare t flags e =>
    obtain ⟨ht, rfl⟩ := by simpa [step] using hs
    exact h.sysUnshare hw (hw.live ht) flags e
  | unshare32 t flags e =>
    obtain ⟨ht, rfl⟩ := by simpa [step] using hs
    exact h.kernelUnshare hw (hw.live ht) flags e
  | setnsIpc t n e =>
    obtain ⟨⟨ht, hn⟩, rfl⟩ := by simpa [step] using hs
    refine h.setnsRun hw (hw.live ht) e ?_
    intro k₁ q d hb
    unfold ipcnsInstall
    split
    · exact ⟨hb, rfl, rfl⟩
    · exact install_backed _ (fun _ => rfl) hb
  | setnsPid t n e =>
    obtain ⟨⟨ht, hn⟩, rfl⟩ := by simpa [step] using hs
    refine h.setnsRun hw (hw.live ht) e ?_
    intro k₁ q d hb
    unfold pidnsInstall
    dsimp only
    split_ifs
    · exact ⟨hb, rfl, rfl⟩
    · exact ⟨hb, rfl, rfl⟩
    · exact ⟨hb, rfl, rfl⟩
    · exact install_backed _ (fun _ => rfl) hb
  | setnsHost t e =>
    obtain ⟨ht, rfl⟩ := by simpa [step] using hs
    refine h.setnsRun hw (hw.live ht) e ?_
    intro k₁ q d hb
    unfold hostPidInstall
    dsimp only
    split_ifs
    · exact ⟨hb, rfl, rfl⟩
    · exact ⟨hb, rfl, rfl⟩
    · exact install_backed _ (fun _ => rfl) hb
  | setnsOther t other err e =>
    obtain ⟨ht, rfl⟩ := by simpa [step] using hs
    refine h.setnsRun hw (hw.live ht) e ?_
    intro k₁ q d hb
    unfold otherInstall
    split
    · exact ⟨hb, rfl, rfl⟩
    · exact install_backed _ (fun _ => rfl) hb
  | openIpc t =>
    obtain rfl := by simpa [step] using hs
    exact h
  | closeIpc n =>
    obtain ⟨-, rfl⟩ := by simpa [step] using hs
    have hquiet : Quiet k { k with handles := k.handles.erase n } :=
      ⟨rfl, rfl, rfl, rfl, rfl, rfl, rfl⟩
    exact h.quiet (hquiet.trans (ipcnsPut_quiet _ (some n)))
  | exit t =>
    obtain ⟨ht, rfl⟩ := by simpa [step] using hs
    exact h.exitTaskNamespaces (hw.live ht)

theorem init_backed (cfg : Config) : Backed (init cfg) 0 := by
  intro q
  by_cases hq : q = 0
  · subst hq
    exact Int.le_refl 1
  · have husers : (init cfg).users q = 0 := by
      simp [users, Census.count, Census.ind, init, Ne.symm hq]
    rw [husers]
    exact uses_nonneg _ q

/-- The nsproxy of a live task is there. -/
theorem Backed.nsproxyOf (hb : Backed k 0) (hw : Wf k) (ht : k.live t = true) :
    ∃ x, k.nsproxyOf t = some x := by
  obtain ⟨q, hq⟩ := Option.isSome_iff_exists.1 ht
  obtain ⟨x, hx⟩ := hb.nsproxy (fun _ => Int.le_refl 0) (hw.live ht) hq
  exact ⟨x, by rw [Kernel.nsproxyOf, hq]; exact hx⟩

/-- In every reachable state the count of an nsproxy is the number of its tasks. -/
theorem run_backed (h : Run step (init cfg) k) : Wf k ∧ Backed k 0 := by
  refine h.inv (I := fun k => Wf k ∧ Backed k 0) ⟨init_wf cfg, init_backed cfg⟩ ?_
  rintro k act k' ⟨hw, hb⟩ hs
  exact ⟨(step_grows hw hs).wf, step_backed hb hw hs⟩

/-- **A live task's nsproxy is there, in every reachable state.** -/
theorem run_nsproxy (h : Run step (init cfg) k) (ht : k.live t = true) :
    ∃ x, k.nsproxyOf t = some x := (run_backed h).2.nsproxyOf (run_backed h).1 ht

end DroidLkm.Slot.Kernel
