/-
  What the keepalive promises, and when it keeps it.

  * `Pinned`: the flag is the one reference, and a namespace that a task names
    is held by it;
  * `Busy`: what the worker goes by;
  * `Keeps`: the steps that keep the promise;
  * `keepalive_pinned`: runs of such steps;
  * `dropped_named`: the worker drops the reference of a task that has not made
    its first child yet.
-/
import DroidLkm.Keepalive.World
import DroidLkm.Slot.Carried

namespace DroidLkm.Keepalive

open Slot Slot.Kernel Machine

variable {w w' : World} {k k' : Kernel} {t u : ℕ} {flags : Flags} {e : Env} {a : Slot.Act}
  {act : Act} {trusted : Bool}

/-- Nobody is in an `unshare` or in `droid_lkm_keepalive_sync`. -/
def World.Quiet (w : World) : Prop := (∀ t ∈ w.liveTasks, w.pin t = .out) ∧ w.sync = .out

structure Pinned (w : World) : Prop where
  /-- the flag says that there is one reference -/
  counted : w.held = true ↔ w.refs = 1
  /-- a namespace of the module that a task names is pinned -/
  kept : w.Quiet → ∀ t, Carries w.kernel t → w.held = true

/-- Calls that make no namespace without pinning it, and enter none. -/
def Safe (k : Kernel) : Slot.Act → Prop
  | .fork _ flags e | .clone _ flags e | .clone3 _ flags _ e => k.Plain flags e
  | .unshare t flags e => has flags OURS = false ∨ e.gate = false ∨ k.cfg.noFakeNs = true ∨
      k.cfg.cnnHooked = false ∨ k.unsharePrecheck t e flags = true
  | .unshare32 _ flags e =>
      has flags OURS = false ∨ e.gate = false ∨ k.cfg.cnnHooked = false
  | .setnsIpc _ n _ | .setnsPid _ n _ => n = 0
  | _ => True

/-! ## What the worker looks at -/

/-- The only tasks that name a namespace of the module have still to pin it. -/
def Unnamed (w : World) : Prop := ∀ t, Carries w.kernel t → w.pin t ≠ .out

/-- `droid_lkm_ipcns_busy`, with the namespaces `rest` still to be looked at. -/
def IdsBusy (trusted : Bool) (w : World) (rest : List ℕ) (createdUsed : Bool) : Prop :=
  (0 ∈ rest ∧ w.idsUsed 0 = true) ∨
    ((createdUsed = true ∨ ∃ n ∈ rest, n ≠ 0 ∧ w.idsUsed n = true) ∧ trusted = true ∧
      ∃ t ∈ w.eachProcessThread, w.taskNsRefs t = true)

/-- What the worker has still to look at is busy; it has, once it has found it so. -/
def Ahead (trusted : Bool) (w : World) : Sync → Prop
  | .pids rest => (∃ n ∈ rest, w.idrIsEmpty n = false) ∨ IdsBusy trusted w w.ipcnsList false
  | .ids rest createdUsed => IdsBusy trusted w rest createdUsed
  | .tasks rest => ∃ t ∈ rest, w.taskNsRefs t = true
  | .free | .held => False
  | .out | .busy | .unheld => True

/-- `droid_lkm_pidns_busy() || droid_lkm_ipcns_busy()` -/
def Busy (trusted : Bool) (w : World) : Prop := Ahead trusted w (.pids w.pidnsList)

/-- The worker has begun to look, and has found nothing busy so far. -/
def Looking : Sync → Prop
  | .out | .busy | .unheld => False
  | _ => True

/-- The steps that keep the promise. -/
def Keeps (trusted : Bool) (w : World) : Act → Prop
  | .call a => (w.held = true ∨ Safe w.kernel a) ∧
      (Looking w.sync → Unnamed w ∧ Safe w.kernel a)
  -- the caller of an unshare is past its pin before the worker looks, or after
  | .pinTest t => Looking w.sync → Unnamed w → w.held = true → ¬Carries w.kernel t
  -- nobody has pinned since the flag was tested
  | .pinTake t live => (live = true ∧ w.held = false) ∧
      (Looking w.sync → ¬Carries w.kernel t)
  | .rmId _ _ | .freePid _ => Looking w.sync → Unnamed w
  | .sync live => match w.sync with
    -- if a task names a namespace, it is busy
    | .out => Unnamed w ∨ Busy trusted w
    | .unheld => live = true ∧ w.held = false
    | _ => True
  | _ => True

structure Inv (trusted : Bool) (w : World) : Prop where
  wf : Wf w.kernel
  count : w.refs = if w.held then 1 else 0
  named : w.held = false → Unnamed w
  looked : Unnamed w ∨ Ahead trusted w w.sync

theorem Inv.pinned (h : Inv trusted w) : Pinned w where
  counted := by
    rw [h.count]
    cases w.held <;> simp
  kept hq t ht := by
    cases hh : w.held with
    | true => rfl
    | false =>
      obtain ⟨x, hx, -⟩ := id ht
      have hlive : w.kernel.live t = true := by
        obtain ⟨q, hq, -⟩ := nsproxyOf_some hx
        rw [Kernel.live, hq]
        rfl
      refine absurd (hq.1 t ?_) (h.named hh t ht)
      exact List.mem_filter.2 ⟨List.mem_range.2 (h.wf.names hx).1, hlive⟩

theorem ahead_of_not_looking {s : Sync} (h : ¬Looking s) : Ahead trusted w s := by
  cases s with
  | out => exact trivial
  | busy => exact trivial
  | unheld => exact trivial
  | pids => exact absurd trivial h
  | ids => exact absurd trivial h
  | tasks => exact absurd trivial h
  | free => exact absurd trivial h
  | held => exact absurd trivial h

/-! ## `unshare` -/

section WithPin

variable {σ : Type} (o : UnshareOps σ) (s : σ) (b : Bool)

@[simp] theorem withPin_gateAllow : o.withPin.gateAllow = o.gateAllow := rfl

@[simp] theorem withPin_noFakeNs : o.withPin.noFakeNs = o.noFakeNs := rfl

@[simp] theorem withPin_cnnHooked : o.withPin.cnnHooked = o.cnnHooked := rfl

@[simp] theorem withPin_unsharePrecheck :
    o.withPin.unsharePrecheck (s, b) flags = o.unsharePrecheck s flags := rfl

@[simp] theorem withPin_origUnshare : o.withPin.origUnshare (s, b) flags =
    (((o.origUnshare s flags).1, b), (o.origUnshare s flags).2) := rfl

@[simp] theorem withPin_keepalivePin :
    o.withPin.keepalivePin (s, b) = (o.keepalivePin s, true) := rfl

@[simp] theorem flushIpc_withPin :
    flushIpc o.withPin (s, b) flags = (flushIpc o s flags, b) := by
  unfold flushIpc
  split <;> split <;> rfl

@[simp] theorem installIpcns_withPin : installIpcns o.withPin (s, b) flags =
    (((installIpcns o s flags).1, b), (installIpcns o s flags).2) := by
  unfold installIpcns
  split <;> rfl

@[simp] theorem installPidns_withPin : installPidns o.withPin (s, b) flags =
    (((installPidns o s flags).1, b), (installPidns o s flags).2) := by
  unfold installPidns
  split <;> rfl

/-- The note changes nothing. -/
theorem unshareLegacy_withPin :
    (unshareLegacy o.withPin (s, b) flags).1.1 = (unshareLegacy o s flags).1 := by
  unfold unshareLegacy
  simp only [withPin_origUnshare, flushIpc_withPin, installIpcns_withPin]
  split
  · rfl
  split
  · rfl
  · rw [installPidns_withPin, withPin_keepalivePin]

theorem sysUnshare_withPin :
    (sysUnshare o.withPin (s, b) flags).1.1 = (sysUnshare o s flags).1 := by
  unfold sysUnshare
  simp only [withPin_gateAllow, withPin_noFakeNs, withPin_cnnHooked, withPin_unsharePrecheck,
    withPin_origUnshare, flushIpc_withPin]
  split
  · rfl
  split
  · rfl
  split
  · rfl
  split
  · exact unshareLegacy_withPin o s b
  split
  · rfl
  split <;> rfl

end WithPin

/-- After a call by `t` nobody else names more than before, and if the call did
    not get to its pin, `t` names nothing of the module. -/
def Dues (k : Kernel) (t : ℕ) (s : Kernel × Bool) : Prop :=
  (∀ u, u ≠ t → Carries s.1 u → Carries k u) ∧ (s.2 = false → ¬Carries s.1 t)

theorem Dues.of_tame {s : Kernel × Bool} (hn : ¬Carries k t) (h : Tame k s.1) : Dues k t s :=
  ⟨fun _ _ => h.carries, fun _ hc => hn (h.carries hc)⟩

theorem Dues.of_spares {q : ℕ} (h : Spares q t k k') : Dues k t (k', true) :=
  ⟨fun _ hu => h.carries hu, nofun⟩

theorem flushIpc_unshareOps : flushIpc (k.unshareOps t e) k' flags = k' := by
  unfold flushIpc unshareOps
  simp only [id_eq, ite_self]

theorem unshareLegacy_dues (hw : Wf k) (hn : ¬Carries k t) (hc : k.cfg.cnnHooked = false) :
    Dues k t (unshareLegacy (k.unshareOps t e).withPin (k, false) flags).1 := by
  have horig : (k.unshareOps t e).origUnshare k (legacyFlags flags) =
    k.kernelUnshare (legacyFlags flags) t e := rfl
  unfold unshareLegacy
  simp only [withPin_origUnshare, flushIpc_withPin, installIpcns_withPin, flushIpc_unshareOps,
    horig]
  have htame : Tame k (k.kernelUnshare (legacyFlags flags) t e).1 :=
    kernelUnshare_tame (.inr (.inr hc)) hn
  rcases hr : k.kernelUnshare (legacyFlags flags) t e with ⟨k₁, ret⟩
  rw [hr] at htame
  split
  · exact .of_tame hn htame
  next hret =>
  dsimp only at hret
  obtain ⟨hsp, hq⟩ := kernelUnshare_spares hw (has_legacyFlags flags).1 (by
    rw [hr]
    exact congrArg _ (not_not.1 hret))
  -- the ipc namespace is the first to be installed
  have hipc : Spares k.nextNsp t k (installIpcns (k.unshareOps t e) k₁ flags).1 ∧
      ((installIpcns (k.unshareOps t e) k₁ flags).1.task t).nsproxy = some k.nextNsp := by
    unfold installIpcns
    split
    · exact hsp.slotInstallIpcns hq e
    · exact ⟨hsp, hq⟩
  split
  · next hret₂ =>
    refine .of_tame hn (htame.trans (.of_quiet ?_))
    dsimp only at hret₂ ⊢
    unfold installIpcns at hret₂ ⊢
    split at hret₂
    · next hf =>
      rw [if_pos hf]
      exact slotInstallIpcns_failed hret₂
    · exact absurd rfl hret₂
  · rw [installPidns_withPin]
    refine Dues.of_spares (q := k.nextNsp) ?_
    unfold installPidns
    split
    · exact hipc.1.slotInstallPidns hipc.2 e
    · exact hipc.1

/-- An `unshare` that gives the caller a namespace gets to its pin. -/
theorem sysUnshare_dues (hw : Wf k) (hn : ¬Carries k t) (hs : Safe k (.unshare t flags e)) :
    Dues k t (sysUnshare (k.unshareOps t e).withPin (k, false) flags).1 := by
  have horig : (k.unshareOps t e).origUnshare k flags = k.kernelUnshare flags t e := rfl
  have hplain (hp : has flags OURS = false ∨ e.gate = false ∨ k.cfg.cnnHooked = false) :
      Dues k t ((k.kernelUnshare flags t e).1, false) := .of_tame hn (kernelUnshare_tame hp hn)
  unfold sysUnshare
  simp only [withPin_gateAllow, withPin_noFakeNs, withPin_cnnHooked, withPin_unsharePrecheck,
    withPin_origUnshare, flushIpc_withPin, flushIpc_unshareOps, horig]
  split
  · next hf =>
    rw [has_or, Bool.not_eq_true', Bool.or_eq_false_iff] at hf
    exact hplain (.inl hf.1)
  split
  · next hg => exact hplain (.inr (.inl (by simpa [unshareOps] using hg)))
  split
  · exact .of_tame hn (.refl k)
  split
  · next hc => exact unshareLegacy_dues hw hn (by simpa [unshareOps] using hc)
  next hf hg hno hc =>
  split
  · next hpre =>
    simp only [unshareOps, Bool.not_eq_true', Bool.not_eq_false, Bool.not_eq_true] at hg hno hc hpre
    rcases hs with h | h | h | h | h
    · exact hplain (.inl h)
    · exact hplain (.inr (.inl h))
    · rw [h] at hno
      cases hno
    · exact hplain (.inr (.inr h))
    · rw [h] at hpre
      cases hpre
  · rcases hr : k.kernelUnshare flags t e with ⟨k₁, ret⟩
    by_cases hret : ret = 0
    · subst hret
      by_cases hns : has flags KERNEL_NS = true
      · exact .of_spares (kernelUnshare_spares hw hns hr).1
      · have hf : has flags OURS = false := by
          rw [← Bool.not_eq_true]
          exact fun hf => hns (ours_kernel_ns hf)
        have htame : Tame k (k.kernelUnshare flags t e).1 := kernelUnshare_tame (.inl hf) hn
        rw [hr] at htame
        exact .of_tame hn htame
    · rw [if_neg hret]
      exact .of_tame hn (.of_quiet (kernelUnshare_failed hr hret))

/-! ## Steps -/

/-- Every call but `unshare` leaves nobody with more names. -/
theorem step_tame (hs : Safe k a) (hn : ∀ t, caller a = some t → ¬Carries k t)
    (hu : ∀ t flags e, a ≠ .unshare t flags e) (ha : k.step a = some k') : Tame k k' := by
  cases a with
  | fork t flags e =>
    obtain ⟨-, rfl⟩ := by simpa [Kernel.step] using ha
    refine kernelClone_tame ?_ (hn t rfl)
    unfold Plain
    rw [has_cloneFlags (by decide)]
    exact hs
  | clone t flags e =>
    obtain ⟨-, rfl⟩ := by simpa [Kernel.step] using ha
    exact sysClone_tame hs (hn t rfl)
  | clone3 t flags u e =>
    obtain ⟨-, rfl⟩ := by simpa [Kernel.step] using ha
    exact sysClone3_tame u hs (hn t rfl)
  | unshare t flags e => exact absurd rfl (hu t flags e)
  | unshare32 t flags e =>
    obtain ⟨-, rfl⟩ := by simpa [Kernel.step] using ha
    exact kernelUnshare_tame hs (hn t rfl)
  | setnsIpc t n e =>
    obtain ⟨-, rfl⟩ := by simpa [Kernel.step] using ha
    refine setnsRun_tame (hn t rfl) fun k q hb => ?_
    unfold ipcnsInstall
    split
    · exact ⟨.refl k, hb⟩
    · refine modifyNsp_tame hb fun x hx => ⟨hx.1, ?_⟩
      rintro m ⟨⟩
      exact hs
  | setnsPid t n e =>
    obtain ⟨-, rfl⟩ := by simpa [Kernel.step] using ha
    refine setnsRun_tame (hn t rfl) fun k q hb => ?_
    unfold pidnsInstall
    dsimp only
    split_ifs
    · exact ⟨.refl k, hb⟩
    · exact ⟨.refl k, hb⟩
    · exact ⟨.refl k, hb⟩
    · exact modifyNsp_tame hb fun x hx => ⟨hs, hx.2⟩
  | setnsHost t e =>
    obtain ⟨-, rfl⟩ := by simpa [Kernel.step] using ha
    refine setnsRun_tame (hn t rfl) fun k q hb => ?_
    unfold hostPidInstall
    dsimp only
    split_ifs
    · exact ⟨.refl k, hb⟩
    · exact ⟨.refl k, hb⟩
    · exact modifyNsp_tame hb fun x hx => ⟨rfl, hx.2⟩
  | setnsOther t other err e =>
    obtain ⟨-, rfl⟩ := by simpa [Kernel.step] using ha
    refine setnsRun_tame (hn t rfl) fun k q hb => ?_
    unfold otherInstall
    split
    · exact ⟨.refl k, hb⟩
    · exact modifyNsp_tame hb fun x hx => hx
  | openIpc t =>
    obtain rfl := by simpa [Kernel.step] using ha
    exact .of_quiet ⟨rfl, rfl, rfl, rfl, rfl, rfl, rfl⟩
  | closeIpc n =>
    obtain ⟨-, rfl⟩ := by simpa [Kernel.step] using ha
    have hq : Quiet k { k with handles := k.handles.erase n } := ⟨rfl, rfl, rfl, rfl, rfl, rfl, rfl⟩
    exact .of_quiet (hq.trans (ipcnsPut_quiet _ (some n)))
  | exit t =>
    obtain ⟨-, rfl⟩ := by simpa [Kernel.step] using ha
    exact (exitTaskNamespaces_moved k t).tame_none

theorem unshare_wf (hw : Wf w.kernel) (ht : w.kernel.live t = true) :
    Wf (w.unshare t flags e).kernel := by
  have hfst : (w.unshare t flags e).kernel =
      (sysUnshare (w.kernel.unshareOps t e) w.kernel flags).1 :=
    sysUnshare_withPin _ _ _
  rw [hfst]
  exact (hw.sysUnshare flags (hw.live ht) e).wf

/-- An `unshare` that gives the caller a namespace leaves it before its pin. -/
theorem unshare_unnamed (hw : Wf w.kernel) (hu : Unnamed w) (hp : w.pin t = .out)
    (hs : Safe w.kernel (.unshare t flags e)) : Unnamed (w.unshare t flags e) := by
  intro u hu'
  have hn : ¬Carries w.kernel t := fun hc => hu t hc hp
  obtain ⟨hother, hself⟩ := sysUnshare_dues hw hn hs
  unfold World.unshare at hu' ⊢
  dsimp only at hu' ⊢
  by_cases hut : u = t
  · subst hut
    cases hb : (sysUnshare (w.kernel.unshareOps u e).withPin (w.kernel, false) flags).1.2 with
    | false => exact absurd hu' (hself hb)
    | true =>
      rw [if_pos rfl, Function.update_self]
      decide
  · have hpin := hu u (hother u hut hu')
    split
    · rw [Function.update_of_ne hut]
      exact hpin
    · exact hpin

theorem become_unnamed {thread : Bool} (hu : Unnamed w)
    (hc : ∀ t, caller a = some t → w.pin t = .out) (hs : Safe w.kernel a)
    (hne : ∀ t flags e, a ≠ .unshare t flags e) (ha : w.kernel.step a = some k') :
    Unnamed (w.become thread k') := by
  intro u hn
  exact hu u ((step_tame hs (fun t ht hn => hu t hn (hc t ht)) hne ha).carries hn)

/-- A call keeps the flag and the reference, and leaves nobody with a new name if it is
    safe. -/
theorem call_spec (hw : Wf w.kernel) (ha : step trusted w (.call a) = some w') :
    (Wf w'.kernel ∧ w'.held = w.held ∧ w'.refs = w.refs ∧ w'.sync = w.sync) ∧
      (Unnamed w → Safe w.kernel a → Unnamed w') := by
  simp only [step] at ha
  split at ha
  · cases ha
  next hc =>
  have hout : ∀ t, caller a = some t → w.pin t = .out := by
    intro t ht
    rw [ht] at hc
    simpa using hc
  split at ha
  · next t flags e =>
    split at ha
    · next hl =>
      obtain rfl := Option.some.inj ha
      exact ⟨⟨unshare_wf hw hl, rfl, rfl, rfl⟩, fun hu => unshare_unnamed hw hu (hout t rfl)⟩
    · cases ha
  · next hne =>
    obtain ⟨k', hk', rfl⟩ := Option.map_eq_some_iff.1 ha
    exact ⟨⟨(step_grows hw hk').wf, rfl, rfl, rfl⟩,
      fun hu hs => become_unnamed hu hout hs hne hk'⟩

theorem call_inv (h : Inv trusted w) (hs : Keeps trusted w (.call a))
    (ha : step trusted w (.call a) = some w') : Inv trusted w' := by
  obtain ⟨⟨hwf, hheld, hrefs, hsync⟩, hun⟩ := call_spec h.wf ha
  obtain ⟨hsafe, hlook⟩ := hs
  refine ⟨hwf, by rw [hrefs, hheld]; exact h.count, fun hf => ?_, ?_⟩
  · rw [hheld] at hf
    refine hun (h.named hf) (hsafe.resolve_left fun ht => ?_)
    rw [hf] at ht
    cases ht
  · by_cases hl : Looking w.sync
    · exact .inl (hun (hlook hl).1 (hlook hl).2)
    · rw [hsync]
      exact .inr (ahead_of_not_looking hl)

/-! ### The pin and the worker -/

/-- A step that is no call, and leaves the flag. -/
theorem Inv.congr (h : Inv trusted w) (hk : w'.kernel = w.kernel) (hh : w'.held = w.held)
    (hr : w'.refs = w.refs) (hn : w.held = false → Unnamed w → Unnamed w')
    (hl : Unnamed w' ∨ Ahead trusted w' w'.sync) : Inv trusted w' := by
  refine ⟨hk ▸ h.wf, by rw [hr, hh]; exact h.count, fun hf => ?_, hl⟩
  rw [hh] at hf
  exact hn hf (h.named hf)

/-- The reference is taken, by one who has found none. -/
theorem Inv.take (h : Inv trusted w) (hheld : w.held = false) {pin : ℕ → Pin} {sync : Sync}
    (hl : Unnamed { w.take true with pin := pin, sync := sync } ∨
      Ahead trusted { w.take true with pin := pin, sync := sync } sync) :
    Inv trusted { w.take true with pin := pin, sync := sync } := by
  refine ⟨h.wf, ?_, nofun, hl⟩
  unfold World.take
  rw [if_pos rfl]
  dsimp only
  rw [h.count, hheld]
  rfl

/-- One look further, what is busy is still ahead or has been found. -/
theorem ahead_syncStep {live : Bool} (h : Ahead trusted w w.sync) (hout : w.sync ≠ .out) :
    Ahead trusted (w.syncStep trusted live) (w.syncStep trusted live).sync := by
  unfold World.syncStep
  cases hs : w.sync with
  | out => exact absurd hs hout
  | pids rest =>
    rw [hs] at h
    cases rest with
    | nil => exact h.resolve_left (by rintro ⟨n, hn, -⟩; cases hn)
    | cons n rest =>
      dsimp only
      split
      · next hempty =>
        refine h.imp_left ?_
        rintro ⟨m, hm, hbusy⟩
        rcases List.mem_cons.1 hm with rfl | hm
        · rw [hempty] at hbusy
          cases hbusy
        · exact ⟨m, hm, hbusy⟩
      · exact trivial
  | ids rest createdUsed =>
    rw [hs] at h
    cases rest with
    | nil =>
      obtain ⟨hn, -⟩ | ⟨hused, htrusted, hrefs⟩ := h
      · cases hn
      · have hused : createdUsed = true := hused.resolve_right (by rintro ⟨n, hn, -⟩; cases hn)
        rw [hused, htrusted]
        exact hrefs
    | cons n rest =>
      dsimp only
      split
      · next hnot =>
        have hskip {m : ℕ} (hm : m ∈ n :: rest) (hused : w.idsUsed m = true) : m ∈ rest := by
          rcases List.mem_cons.1 hm with rfl | hm
          · rw [hused] at hnot
            cases hnot
          · exact hm
        refine h.imp (fun h => ⟨hskip h.1 h.2, h.2⟩) (fun h => ⟨h.1.imp_right ?_, h.2⟩)
        rintro ⟨m, hm, hne, hused⟩
        exact ⟨m, hskip hm hused, hne, hused⟩
      split
      · exact trivial
      · next hne =>
        refine h.imp (fun h => ⟨?_, h.2⟩) (fun h => ⟨.inl rfl, h.2⟩)
        exact (List.mem_cons.1 h.1).resolve_left (Ne.symm hne)
  | tasks rest =>
    rw [hs] at h
    cases rest with
    | nil =>
      obtain ⟨t, ht, -⟩ := h
      cases ht
    | cons t rest =>
      dsimp only
      split
      · exact trivial
      · next hnot =>
        obtain ⟨u, hu, hrefs⟩ := h
        rcases List.mem_cons.1 hu with rfl | hu
        · exact absurd hrefs hnot
        · exact ⟨u, hu, hrefs⟩
  | busy =>
    dsimp only
    split <;> exact trivial
  | unheld => exact trivial
  | free =>
    rw [hs] at h
    exact h.elim
  | held => exact trivial

/-- The worker has nothing to do with who names what. -/
theorem syncStep_same (trusted live : Bool) (w : World) :
    (w.syncStep trusted live).kernel = w.kernel ∧ (w.syncStep trusted live).pin = w.pin := by
  unfold World.syncStep World.take
  split <;> try exact ⟨rfl, rfl⟩
  split <;> exact ⟨rfl, rfl⟩

/-- The flag changes where the worker takes or drops the reference. -/
theorem syncStep_flag (trusted live : Bool) (w : World) :
    ((w.syncStep trusted live).held = w.held ∧ (w.syncStep trusted live).refs = w.refs) ∨
      (w.sync = .unheld ∧ w.syncStep trusted live = { w.take live with sync := .out }) ∨
      (w.sync = .held ∧ (w.syncStep trusted live).refs = w.refs - 1) := by
  unfold World.syncStep
  cases hs : w.sync with
  | out => exact .inl ⟨rfl, rfl⟩
  | pids rest => cases rest <;> exact .inl ⟨rfl, rfl⟩
  | ids rest => cases rest <;> exact .inl ⟨rfl, rfl⟩
  | tasks rest => cases rest <;> exact .inl ⟨rfl, rfl⟩
  | busy => exact .inl ⟨rfl, rfl⟩
  | unheld => exact .inr (.inl ⟨rfl, rfl⟩)
  | free => exact .inl ⟨rfl, rfl⟩
  | held => exact .inr (.inr ⟨rfl, rfl⟩)

/-- **The worker drops the reference of nobody**: what is named is busy, and the worker
    comes to it before it is done. -/
theorem sync_inv {live : Bool} (h : Inv trusted w) (hs : Keeps trusted w (.sync live)) :
    Inv trusted (w.syncStep trusted live) := by
  obtain ⟨hk, hp⟩ := syncStep_same trusted live w
  have hun (hu : Unnamed w) : Unnamed (w.syncStep trusted live) := by
    intro t ht
    rw [hk] at ht
    rw [hp]
    exact hu t ht
  have hlooked : Unnamed (w.syncStep trusted live) ∨
      Ahead trusted (w.syncStep trusted live) (w.syncStep trusted live).sync := by
    by_cases hout : w.sync = .out
    · unfold Keeps at hs
      unfold World.syncStep
      rw [hout] at hs ⊢
      exact hs
    · exact h.looked.imp hun fun ha => ahead_syncStep ha hout
  rcases syncStep_flag trusted live w with ⟨hheld, hrefs⟩ | ⟨hsync, htake⟩ | ⟨hsync, hrefs⟩
  · exact h.congr hk hheld hrefs (fun _ => hun) hlooked
  · unfold Keeps at hs
    rw [hsync] at hs
    obtain ⟨rfl, hheld⟩ := hs
    rw [htake] at hlooked ⊢
    exact h.take hheld hlooked
  · have hu : Unnamed w := h.looked.resolve_right (by rw [hsync]; exact id)
    have hheld : (w.syncStep trusted live).held = false := by
      unfold World.syncStep
      rw [hsync]
    refine ⟨hk ▸ h.wf, ?_, fun _ => hun hu, hlooked⟩
    rw [hrefs, hheld, h.count]
    split <;> rfl

/-- What is named is as before where the tasks and their pins are. -/
theorem Unnamed.congr (h : Unnamed w) (hk : w'.kernel = w.kernel) (hp : w'.pin = w.pin) :
    Unnamed w' := by
  intro t ht
  rw [hk] at ht
  rw [hp]
  exact h t ht

/-- Somebody comes to the end of a pin who names nothing. -/
theorem Unnamed.pin (h : Unnamed w) {pin : Pin} (hn : pin = .out → ¬Carries w.kernel t) :
    Unnamed { w with pin := Function.update w.pin t pin } := by
  intro u hu
  dsimp only
  by_cases hut : u = t
  · subst hut
    rw [Function.update_self]
    exact fun hout => hn hout hu
  · rw [Function.update_of_ne hut]
    exact h u hu

/-- Where the worker is in its looks, more objects are no less busy. -/
theorem Ahead.newId {s : Sync} (h : Ahead trusted w s) {inUse : ℕ → Fin 3 → ℕ}
    (hle : ∀ n i, w.inUse n i ≤ inUse n i) : Ahead trusted { w with inUse := inUse } s := by
  have hused {n : ℕ} (hu : w.idsUsed n = true) : { w with inUse := inUse }.idsUsed n = true := by
    have h₀ := hle n 0
    have h₁ := hle n 1
    have h₂ := hle n 2
    unfold World.idsUsed at hu ⊢
    simp only [Bool.or_eq_true, decide_eq_true_eq] at hu ⊢
    omega
  have hids {rest : List ℕ} {createdUsed : Bool} (h : IdsBusy trusted w rest createdUsed) :
      IdsBusy trusted { w with inUse := inUse } rest createdUsed := by
    refine h.imp (fun h => ⟨h.1, hused h.2⟩) (fun h => ⟨h.1.imp_right ?_, h.2⟩)
    rintro ⟨n, hn, hne, hu⟩
    exact ⟨n, hn, hne, hused hu⟩
  cases s with
  | pids rest => exact h.imp_right hids
  | ids rest createdUsed => exact hids h
  | _ => exact h

/-- **One step.** -/
theorem step_inv (h : Inv trusted w) (hs : Keeps trusted w act)
    (ha : step trusted w act = some w') : Inv trusted w' := by
  have hquiet (hl : Looking w.sync → Unnamed w) : Unnamed w ∨ ¬Looking w.sync := by
    by_cases hlook : Looking w.sync
    · exact .inl (hl hlook)
    · exact .inr hlook
  cases act with
  | call a => exact call_inv h hs ha
  | pinTest t =>
    simp only [step] at ha
    split at ha
    · obtain rfl := Option.some.inj ha
      refine h.congr rfl rfl rfl (fun hf hu => hu.pin fun hout => ?_) ?_
      · rw [hf] at hout
        cases hout
      · by_cases hlook : Looking w.sync
        · refine h.looked.imp_left fun hu => hu.pin fun hout => ?_
          by_cases hheld : w.held = true
          · exact hs hlook hu hheld
          · rw [if_neg hheld] at hout
            cases hout
        · exact .inr (ahead_of_not_looking hlook)
    · cases ha
  | pinTake t live =>
    simp only [step] at ha
    split at ha
    · obtain rfl := Option.some.inj ha
      obtain ⟨⟨rfl, hheld⟩, hlook⟩ := hs
      refine h.take hheld ?_
      by_cases hl : Looking w.sync
      · exact .inl ((h.named hheld).pin fun _ => hlook hl)
      · exact .inr (ahead_of_not_looking hl)
    · cases ha
  | newId t i =>
    simp only [step] at ha
    split at ha
    · obtain rfl := Option.some.inj ha
      refine h.congr rfl rfl rfl (fun _ hu => hu) (h.looked.imp_right fun hl => hl.newId ?_)
      intro n j
      by_cases hn : n = w.kernel.ipcnsTaskNs t
      · subst hn
        rw [Function.update_self]
        by_cases hj : j = i
        · subst hj
          rw [Function.update_self]
          exact Nat.le_succ _
        · exact Nat.le_of_eq (by rw [Function.update_of_ne hj])
      · exact Nat.le_of_eq (by rw [Function.update_of_ne hn])
    · cases ha
  | rmId n i =>
    simp only [step] at ha
    split at ha
    · obtain rfl := Option.some.inj ha
      exact h.congr rfl rfl rfl (fun _ hu => hu) ((hquiet hs).imp_right ahead_of_not_looking)
    · cases ha
  | mqueue t =>
    simp only [step] at ha
    split at ha
    · obtain rfl := Option.some.inj ha
      exact h
    · cases ha
  | freePid t =>
    simp only [step] at ha
    split at ha
    · cases ha
    · obtain rfl := Option.some.inj ha
      exact h.congr rfl rfl rfl (fun _ hu => hu) ((hquiet hs).imp_right ahead_of_not_looking)
  | sync live =>
    obtain rfl := Option.some.inj ha
    exact sync_inv h hs
  | syncMeet t =>
    simp only [step] at ha
    split at ha
    · next rest hsync =>
      split at ha
      · obtain rfl := Option.some.inj ha
        refine h.congr rfl rfl rfl (fun _ hu => hu) (h.looked.imp_right fun hl => ?_)
        dsimp only
        split
        · exact trivial
        · exact hl
      · cases ha
    · cases ha

/-! ## Runs -/

theorem init_inv (trusted : Bool) (cfg : Config) : Inv trusted (World.init cfg) := by
  suffices hu : Unnamed (World.init cfg) from ⟨init_wf cfg, rfl, fun _ => hu, .inl hu⟩
  intro t ht
  obtain ⟨x, hx, hb⟩ := ht
  obtain ⟨q, -, hq⟩ := nsproxyOf_some hx
  simp only [World.init, Kernel.init] at hq
  split at hq
  · obtain rfl := Option.some.inj hq
    exact absurd ⟨rfl, fun n hn => (Option.some.inj hn).symm⟩ hb
  · cases hq

/-- **Keepalive pin.**  In every run of such steps the flag is the one
    reference, and what a task names is held by it. -/
theorem keepalive_pinned (cfg : Config) (trusted : Bool) (w : World)
    (h : RunIf (step trusted) (Keeps trusted) (World.init cfg) w) : Pinned w :=
  (h.inv (init_inv trusted cfg) fun _ _ _ hi hs ha => step_inv hi hs ha).pinned

/-- Everything is allowed and succeeds. -/
def able : Env := ⟨true, true, true, 0, 0, 0, 0, 0, 0, 0, 0, false⟩

def hooked : Config := ⟨true, true, true, true, false⟩

/-- The first child after an `unshare(CLONE_NEWPID)` finds its namespace held, and the
    worker finds the child. -/
theorem keepalive_pinned_child : ∃ w, RunIf (step true) (Keeps true) (World.init hooked) w ∧
    (w.kernel.task 1).activePidNs = 1 ∧ w.refs = 1 ∧ w.sync = .out ∧ Pinned w := by
  have h₀ : RunIf (step true) (Keeps true) (World.init hooked) (World.init hooked) :=
    Relation.ReflTransGen.refl
  have hunshare := h₀.snoc (a := .call (.unshare 0 CLONE_NEWPID able))
    (by exact ⟨.inr (.inr (.inr (.inr (.inr (by decide))))), False.elim⟩) rfl
  have htest := hunshare.snoc (a := .pinTest 0) (by exact False.elim) rfl
  have htake := htest.snoc (a := .pinTake 0 true) (by exact ⟨⟨rfl, rfl⟩, False.elim⟩) rfl
  have hfork := htake.snoc (a := .call (.fork 0 0 able)) (by exact ⟨.inl rfl, False.elim⟩) rfl
  have hbegin := hfork.snoc (a := .sync true)
    (by exact .inr (.inl ⟨1, by decide, by decide⟩)) rfl
  have hlook := hbegin.snoc (a := .sync true) (by exact trivial) rfl
  have hbusy := hlook.snoc (a := .sync true) (by exact trivial) rfl
  exact ⟨_, hbusy, by decide, by decide, by decide, keepalive_pinned hooked true _ hbusy⟩

/-- `unshare(CLONE_NEWPID)`, and the worker before there is a child. -/
def earlySync : List Act :=
  [.call (.unshare 0 CLONE_NEWPID able), .pinTest 0, .pinTake 0 true] ++
    List.replicate 7 (.sync true)

/-- The worker drops the reference that the caller has just pinned. -/
theorem dropped_named : ¬∀ (cfg : Config) (trusted : Bool) (w : World),
    Run (step trusted) (World.init cfg) w → Pinned w := by
  intro h
  obtain ⟨w, hrun, hw⟩ := exec_check (step true) (World.init hooked) earlySync
    (fun w => w.liveTasks.all (fun t => w.pin t = .out) && w.sync = .out && !w.held &&
      (w.kernel.nsproxyOf 0).any fun x => x.pidNsForChildren ≠ 0) (by decide)
  simp only [Bool.and_eq_true, List.all_eq_true, decide_eq_true_eq, Bool.not_eq_true',
    Option.any_eq_true] at hw
  obtain ⟨⟨⟨hout, hsync⟩, hheld⟩, x, hx, hpid⟩ := hw
  have hkept := (h hooked true w hrun).kept ⟨hout, hsync⟩ 0 ⟨x, hx, fun hb => hpid hb.1⟩
  rw [hheld] at hkept
  cases hkept

end DroidLkm.Keepalive
