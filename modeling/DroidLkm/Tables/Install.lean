/-
  Init and exit, slot by slot.

  * `patchIpc_spec`, `cloneSlotInstall_spec`, `slotInit_up`, `slotInit_down`,
    `slotExit_spec`: each slot goes its own way, with no regard to the others
    (`ipcsV`, `cloneV`, `initV`, `downV`, `exitV`); there are 40 of them, so the
    table of saved entries has room;
  * `Written`, `ByPointer`: the slots that the module's entry gets into, and those
    that are taken back only if the pointer to the original is not `NULL`;
  * `restores_iff`: which loads leave the tables as they were;
  * `slots_tracked`: that, with the runs of single calls;
  * `slots_mistracked`: a write that fails leaves an entry.
-/
import DroidLkm.Tables.Views

namespace DroidLkm.Tables

open Pointwise

open State (Within)

variable {e : Env} {m : Tab × ℤ → ℕ} {n : ℕ} {s : State} {σ : Site}

namespace Env

/-! ## The rows -/

/-- The row is one that the module tries to attach. -/
def Wires (e : Env) (tab : Tab) (c : IpcCall) : Prop :=
  e.rowSkipped c = false ∧ (tab = .compat → e.has32 c = true)

instance (e : Env) (tab : Tab) (c : IpcCall) : Decidable (e.Wires tab c) :=
  inferInstanceAs (Decidable (_ ∧ _))

/-- `patchIpc` on a slot, unless `skip_sysvipc`. -/
def ipcV (e : Env) : Site → View → View
  | .ipc tab c, v => if e.Wires tab c then e.attachV (.ipc tab c) v else v
  | _, v => v

theorem Within.mono {n' : ℕ} (hs : Within m n s) (h : n ≤ n') : Within m n' s :=
  ⟨hs.once, Nat.le_trans hs.length h, hs.others⟩

theorem ipcRow_spec {w : State × ℕ × ℕ} (hw : Within m n w.1) (hn : n < slotSaveMax)
    (c : IpcCall) :
    Within m (n + 1) (e.ipcRow w c).1 ∧
      (e.ipcRow w c).1.view = sweep e.ipcV [.ipc .native c] w.1.view := by
  rw [sweep_cons, sweep_nil]
  unfold ipcRow
  by_cases hskip : e.rowSkipped c = true
  · rw [if_pos hskip]
    refine ⟨Within.mono hw (Nat.le_succ n), (amend_id _ _ ?_).symm⟩
    exact if_neg fun h => by rw [h.1] at hskip; cases hskip
  · have hwire : e.Wires .native c := ⟨by simpa using hskip, fun h => by cases h⟩
    have hV : e.ipcV (.ipc .native c) = e.attachV (.ipc .native c) :=
      funext fun v => if_pos hwire
    have ha := attach_spec (e := e) hw hn .native c
    rw [if_neg hskip, hV]
    dsimp only at ha ⊢
    split
    case isTrue h => rwa [if_pos h] at ha
    case isFalse h => rwa [if_neg h] at ha

theorem ipc32Row_spec (hs : Within m n s) (hn : n < slotSaveMax) (c : IpcCall) :
    Within m (n + 1) (e.ipc32Row s c) ∧
      (e.ipc32Row s c).view = sweep e.ipcV [.ipc .compat c] s.view := by
  rw [sweep_cons, sweep_nil]
  unfold ipc32Row
  by_cases h32 : e.has32 c = true
  case neg =>
    rw [if_pos (by simpa using h32)]
    refine ⟨Within.mono hs (Nat.le_succ n), (amend_id _ _ ?_).symm⟩
    exact if_neg fun h => h32 (h.2 rfl)
  case pos =>
    rw [if_neg (by simp [h32])]
    by_cases hskip : e.rowSkipped c = true
    · rw [if_pos hskip]
      refine ⟨Within.mono hs (Nat.le_succ n), (amend_id _ _ ?_).symm⟩
      exact if_neg fun h => by rw [h.1] at hskip; cases hskip
    · have hwire : e.Wires .compat c := ⟨by simpa using hskip, fun _ => h32⟩
      have hV : e.ipcV (.ipc .compat c) = e.attachV (.ipc .compat c) :=
        funext fun v => if_pos hwire
      rw [if_neg hskip, hV]
      exact attach_spec hs hn .compat c

/-- `patchIpc` on a slot. -/
def ipcsV (e : Env) (σ : Site) (v : View) : View := if e.skipSysvipc then v else e.ipcV σ v

theorem ipcV_compat_none (h : e.table .compat = none) (c : IpcCall) (v : View) :
    e.ipcV (.ipc .compat c) v = v := by
  have hid : e.attachV (.ipc .compat c) v = v := if_neg fun ha => ha.1.1 h
  exact ite_eq_right_iff.2 fun _ => hid

theorem patchIpcCompat_spec (hs : Within m n s) (hn : n + 18 ≤ slotSaveMax) :
    Within m (n + 18) (e.patchIpcCompat s) ∧
      (e.patchIpcCompat s).view = sweep e.ipcV (IpcCall.slots.map (.ipc .compat)) s.view := by
  have hnd : (IpcCall.slots.map (Site.ipc .compat)).Nodup := by decide
  unfold patchIpcCompat
  by_cases htab : e.table .compat = none
  · rw [if_pos htab]
    refine ⟨Within.mono hs (Nat.le_add_right n 18), funext fun σ => ?_⟩
    rw [sweep_apply _ hnd]
    split
    case isTrue h =>
      obtain ⟨c, -, rfl⟩ := List.mem_map.1 h
      exact (ipcV_compat_none htab c _).symm
    case isFalse => rfl
  · rw [if_neg htab, List.map_eq_flatMap]
    exact foldl_sweep State.view (fun c => [.ipc .compat c]) e.ipcV (Within m) 1 slotSaveMax
      IpcCall.slots (fun n s c _ hs hN => ipc32Row_spec hs hN c) n s hs hn

theorem patchIpc_spec (hs : Within m n s) (hn : n + 36 ≤ slotSaveMax) :
    Within m (n + 36) (e.patchIpc s).2 ∧
      (e.patchIpc s).2.view = fun σ => e.ipcsV σ (s.view σ) := by
  unfold patchIpc ipcsV
  by_cases hskip : e.skipSysvipc = true
  · rw [if_pos hskip]
    refine ⟨Within.mono hs (Nat.le_add_right n 36), funext fun σ => ?_⟩
    rw [if_pos hskip]
  · rw [if_neg hskip]
    obtain ⟨hw, hv⟩ := foldl_sweep (fun w : State × ℕ × ℕ => w.1.view)
      (fun c => [.ipc .native c]) e.ipcV (fun n w => Within m n w.1) 1 slotSaveMax
      IpcCall.slots (fun n w c _ hw hN => ipcRow_spec (e := e) hw hN c) n (s, 0, 0) hs
      (Nat.le_trans (Nat.add_le_add_left (by decide) n) hn)
    obtain ⟨hw', hv'⟩ := patchIpcCompat_spec (e := e) hw hn
    refine ⟨hw', funext fun σ => ?_⟩
    have hall : (IpcCall.slots.flatMap (fun c => [Site.ipc .native c]) ++
        IpcCall.slots.map (Site.ipc .compat)).Nodup := by decide
    rw [hv', hv, ← sweep_append, sweep_apply _ hall, if_neg hskip]
    split
    case isTrue => rfl
    case isFalse h =>
      cases σ with
      | ipc t c => exact absurd (by cases t <;> simp [c.mem_slots]) h
      | _ => rfl

/-! ## Exit -/

/-- `slotExit` on a slot. -/
def exitV (e : Env) : Site → View → View
  | .ipc tab c, v =>
    if v.patched then { e.unpatchV (.ipc tab c) v with patched := false } else v
  | σ, v => if v.orig ≠ 0 then e.unpatchV σ v else v

theorem exitTab_spec (hs : Within m n s) (tab : Tab) (c : IpcCall) :
    Within m n (e.exitTab c s tab) ∧
      (e.exitTab c s tab).view = sweep e.exitV [.ipc tab c] s.view := by
  rw [sweep_cons, sweep_nil]
  unfold exitTab
  by_cases hp : s.patched tab c = true
  · rw [if_pos hp]
    obtain ⟨hw, hv⟩ := unpatch_spec (e := e) hs (.ipc tab c)
    refine ⟨⟨hw.once, hw.length, hw.others⟩, ?_⟩
    rw [State.setPatched_view, hv, amend_amend]
    have hV : e.exitV (.ipc tab c) (s.view (.ipc tab c)) =
        { e.unpatchV (.ipc tab c) (s.view (.ipc tab c)) with patched := false } := if_pos hp
    exact eq_amend (by rw [amend_self, hV]; rfl) fun τ hτ => amend_ne _ _ hτ
  · rw [if_neg hp]
    have hV : e.exitV (.ipc tab c) (s.view (.ipc tab c)) = s.view (.ipc tab c) := if_neg hp
    exact ⟨hs, (amend_id _ _ hV).symm⟩

theorem exitSite_spec (hs : Within m n s) (hσ : ∀ tab c, σ ≠ .ipc tab c) :
    Within m n (e.exitSite s σ) ∧ (e.exitSite s σ).view = sweep e.exitV [σ] s.view := by
  have hV : e.exitV σ = fun v => if v.orig ≠ 0 then e.unpatchV σ v else v := by
    cases σ with
    | ipc tab c => exact absurd rfl (hσ tab c)
    | _ => rfl
  rw [sweep_cons, sweep_nil, hV]
  unfold exitSite
  by_cases ho : s.orig σ ≠ 0
  · rw [if_pos ho]
    obtain ⟨hw, hv⟩ := unpatch_spec (e := e) hs σ
    refine ⟨hw, hv.trans ?_⟩
    exact eq_amend (by rw [amend_self]; exact (if_pos ho).symm) fun τ hτ => amend_ne _ _ hτ
  · rw [if_neg ho]
    exact ⟨hs, (amend_id _ _ (if_neg ho)).symm⟩

theorem exitRow_spec (hs : Within m n s) (c : IpcCall) :
    Within m n (e.exitRow s c) ∧
      (e.exitRow s c).view = sweep e.exitV [.ipc .native c, .ipc .compat c] s.view :=
  foldl_sweep State.view (fun tab => [Site.ipc tab c]) e.exitV (Within m) 0 n
    [.native, .compat] (fun _ _ tab _ hs _ => exitTab_spec hs tab c) n s hs
    (Nat.le_of_eq (by simp))

/-- **Exit**, slot by slot. -/
theorem slotExit_spec (hs : Within m n s) :
    Within m n (e.slotExit s) ∧ (e.slotExit s).view = fun σ => e.exitV σ (s.view σ) := by
  obtain ⟨hw, hv⟩ := foldl_sweep State.view (fun c => [.ipc .native c, .ipc .compat c]) e.exitV
    (Within m) 0 n IpcCall.slots (fun _ _ c _ hs _ => exitRow_spec (e := e) hs c) n s hs
    (Nat.le_of_eq (by simp))
  have hsites : ∀ σ ∈ [Site.clone3, .clone, .reboot, .unshare], ∀ tab c, σ ≠ .ipc tab c := by
    simp
  obtain ⟨hw', hv'⟩ := foldl_sweep State.view (fun σ => [σ]) e.exitV (Within m) 0 n
    [Site.clone3, .clone, .reboot, .unshare]
    (fun _ _ σ hσ hs _ => exitSite_spec (e := e) hs (hsites σ hσ)) n _ hw (Nat.le_of_eq (by simp))
  refine ⟨hw', funext fun σ => ?_⟩
  have hall : (IpcCall.slots.flatMap (fun c => [Site.ipc .native c, .ipc .compat c]) ++
      [Site.clone3, .clone, .reboot, .unshare].flatMap fun σ => [σ]).Nodup := by decide
  unfold slotExit
  rw [hv', hv, ← sweep_append, sweep_apply _ hall, if_pos]
  cases σ with
  | ipc t c => cases t <;> simp [c.mem_slots]
  | _ => decide

/-! ## Init -/

/-- A slot of a module that has just been loaded. -/
def freshV (m : Tab × ℤ → ℕ) (σ : Site) : View := ⟨m σ.slot, none, 0, false⟩

theorem fresh_within (m : Tab × ℤ → ℕ) : Within m 0 (State.fresh m) :=
  ⟨fresh_once, Nat.le_refl 0, fun _ _ => rfl⟩

theorem fresh_view (m : Tab × ℤ → ℕ) : (State.fresh m).view = freshV m := by
  funext σ
  cases σ <;> rfl

/-- Init gets as far as the rows, and then it succeeds. -/
def Up (e : Env) : Prop :=
  e.scInit = 0 ∧ e.table .native ≠ none ∧
    e.patchErr Site.unshare.slot = 0 ∧ e.patchErr Site.reboot.slot = 0

instance (e : Env) : Decidable e.Up := inferInstanceAs (Decidable (_ ∧ _))

/-- `cloneSlotInstall` on a slot. -/
def cloneV (e : Env) : Site → View → View
  | .clone, v =>
    if e.patchErr Site.clone.slot = 0 ∧ e.patchErr Site.clone3.slot ≠ 0 then
      e.unpatchV .clone (e.patchV .clone v)
    else e.patchV .clone v
  | .clone3, v => if e.patchErr Site.clone.slot = 0 then e.patchV .clone3 v else v
  | _, v => v

theorem cloneSlotInstall_spec (hs : Within m n s) (hn : n + 2 ≤ slotSaveMax)
    (htab : e.table .native ≠ none) (hc : (s.view .clone).saved = none)
    (hc3 : (s.view .clone3).saved = none) :
    Within m (n + 2) (e.cloneSlotInstall s).2 ∧
      (e.cloneSlotInstall s).2.view = fun σ => e.cloneV σ (s.view σ) := by
  obtain ⟨hp, hpv, hpret⟩ := patch_spec (e := e) hs (Nat.lt_of_succ_lt hn) .clone
  have hpret : (e.patch .clone s).1 = 0 ↔ e.patchErr Site.clone.slot = 0 :=
    hpret.trans (and_iff_right ⟨htab, hc⟩)
  unfold cloneSlotInstall
  dsimp only
  by_cases hpe : e.patchErr Site.clone.slot = 0
  case neg =>
    rw [if_pos (mt hpret.1 hpe)]
    refine ⟨Within.mono hp (Nat.le_succ _), hpv.trans (funext fun σ => ?_)⟩
    cases σ <;> simp [amend_apply, cloneV, hpe]
  case pos =>
    obtain ⟨hq, hqv, hqret⟩ := patch_spec (e := e) hp hn .clone3
    have hc3' : ((e.patch .clone s).2.view .clone3).saved = none := by
      rw [hpv, amend_ne _ _ (by decide), hc3]
    have hqret : (e.patch .clone3 (e.patch .clone s).2).1 = 0 ↔ e.patchErr Site.clone3.slot = 0 :=
      hqret.trans (and_iff_right ⟨htab, hc3'⟩)
    rw [if_neg (not_not.2 (hpret.2 hpe))]
    by_cases hqe : e.patchErr Site.clone3.slot = 0
    case pos =>
      rw [if_neg (not_not.2 (hqret.2 hqe))]
      refine ⟨hq, hqv.trans (funext fun σ => ?_)⟩
      cases σ <;> simp [hpv, amend_apply, cloneV, hpe, hqe]
    case neg =>
      rw [if_pos (mt hqret.1 hqe)]
      obtain ⟨hu, huv⟩ := unpatch_spec (e := e) hq .clone
      refine ⟨hu, huv.trans (funext fun σ => ?_)⟩
      cases σ <;> simp [hqv, hpv, amend_apply, cloneV, hpe, hqe]

/-- A successful init on a slot. -/
def initV (e : Env) (σ : Site) (v : View) : View :=
  match σ with
  | .unshare | .reboot => e.patchV σ v
  | .clone | .clone3 => e.cloneV σ v
  | .ipc .. => e.ipcsV σ v

/-- An init that gets as far as the rows succeeds. -/
theorem slotInit_up (hup : e.Up) :
    (e.slotInit (State.fresh m)).1 = 0 ∧ Within m 40 (e.slotInit (State.fresh m)).2 ∧
      (e.slotInit (State.fresh m)).2.view = fun σ => e.initV σ (freshV m σ) := by
  obtain ⟨hsc, htab, hue, hre⟩ := hup
  have h₀ := fresh_within m
  obtain ⟨hp, hpv, hpret⟩ := patch_spec (e := e) h₀ (by decide) .unshare
  obtain ⟨hq, hqv, hqret⟩ := patch_spec (e := e) hp (by decide) .reboot
  obtain ⟨hr, hrv⟩ := patchIpc_spec (e := e) hq (by decide)
  have hret : (e.patch .unshare (State.fresh m)).1 = 0 :=
    hpret.2 ⟨⟨htab, by rw [fresh_view]; rfl⟩, hue⟩
  have hret' : (e.patch .reboot (e.patch .unshare (State.fresh m)).2).1 = 0 := by
    refine hqret.2 ⟨⟨htab, ?_⟩, hre⟩
    rw [hpv, amend_ne _ _ (by decide), fresh_view]
    rfl
  obtain ⟨hc, hcv⟩ := cloneSlotInstall_spec (e := e) hr (by decide) htab
    (by simp [hrv, hqv, hpv, amend_apply, fresh_view, ipcsV, ipcV, freshV])
    (by simp [hrv, hqv, hpv, amend_apply, fresh_view, ipcsV, ipcV, freshV])
  unfold slotInit
  rw [if_neg (not_not.2 hsc)]
  dsimp only
  rw [if_neg (not_not.2 hret), if_neg (not_not.2 hret')]
  refine ⟨rfl, hc, hcv.trans (funext fun σ => ?_)⟩
  cases σ <;> simp [hrv, hqv, hpv, amend_apply, fresh_view, cloneV, initV, ipcsV, ipcV]

/-- A failing init on a slot. -/
def downV (e : Env) (σ : Site) (v : View) : View :=
  match σ with
  | .unshare =>
    if e.scInit ≠ 0 then v
    else if e.patchErr Site.unshare.slot ≠ 0 then e.patchV .unshare v
    else e.unpatchV .unshare (e.patchV .unshare v)
  | .reboot =>
    if e.scInit ≠ 0 ∨ e.patchErr Site.unshare.slot ≠ 0 then v else e.patchV .reboot v
  | _ => v

theorem patchV_no_table (h : e.table σ.tab = none) (v : View) : e.patchV σ v = v :=
  if_neg fun ht => ht.1 h

theorem unpatchV_no_table (h : e.table σ.tab = none) (v : View) : e.unpatchV σ v = v :=
  if_pos h

theorem slotInit_down (hup : ¬ e.Up) :
    (e.slotInit (State.fresh m)).1 ≠ 0 ∧ Within m 2 (e.slotInit (State.fresh m)).2 ∧
      (e.slotInit (State.fresh m)).2.view = fun σ => e.downV σ (freshV m σ) := by
  have h₀ := fresh_within m
  unfold slotInit
  by_cases hsc : e.scInit = 0
  case neg =>
    rw [if_pos hsc]
    refine ⟨hsc, Within.mono h₀ (Nat.zero_le _), (fresh_view m).trans (funext fun σ => ?_)⟩
    cases σ <;> simp [downV, hsc]
  case pos =>
    obtain ⟨hp, hpv, hpret⟩ := patch_spec (e := e) h₀ (by decide) .unshare
    obtain ⟨hq, hqv, hqret⟩ := patch_spec (e := e) hp (by decide) .reboot
    rw [fresh_view] at hpret hpv
    rw [if_neg (not_not.2 hsc)]
    dsimp only
    by_cases hret : (e.patch .unshare (State.fresh m)).1 = 0
    case neg =>
      rw [if_pos hret]
      refine ⟨hret, Within.mono hp (by decide), hpv.trans (funext fun σ => ?_)⟩
      by_cases htab : e.table .native = none
      · cases σ <;> simp [amend_apply, downV, patchV_no_table, unpatchV_no_table, Site.tab, htab]
      · have hue : e.patchErr Site.unshare.slot ≠ 0 := fun hue => hret (hpret.2 ⟨⟨htab, rfl⟩, hue⟩)
        cases σ <;> simp [amend_apply, downV, hsc, hue]
    case pos =>
      obtain ⟨⟨htab, -⟩, hue⟩ := hpret.1 hret
      have hqret : (e.patch .reboot (e.patch .unshare (State.fresh m)).2).1 = 0 ↔
          e.patchErr Site.reboot.slot = 0 := by
        refine hqret.trans (and_iff_right ⟨htab, ?_⟩)
        rw [hpv, amend_ne _ _ (by decide)]
        rfl
      have hre : e.patchErr Site.reboot.slot ≠ 0 := fun hre => hup ⟨hsc, htab, hue, hre⟩
      rw [if_neg (not_not.2 hret), if_pos (mt hqret.1 hre)]
      obtain ⟨hu, huv⟩ := unpatch_spec (e := e) hq .unshare
      refine ⟨mt hqret.1 hre, hu, huv.trans (funext fun σ => ?_)⟩
      cases σ <;> simp [hqv, hpv, amend_apply, downV, hsc, hue]

/-! ## Loads that leave nothing behind -/

/-- The module's entry gets into the slot. -/
def Written (e : Env) : Site → Prop
  | .unshare => e.scInit = 0 ∧ e.table .native ≠ none ∧ e.patchErr Site.unshare.slot = 0
  | .reboot => e.Up
  | .clone => e.Up ∧ e.patchErr Site.clone.slot = 0
  | .clone3 => e.Up ∧ e.patchErr Site.clone.slot = 0 ∧ e.patchErr Site.clone3.slot = 0
  | .ipc tab c =>
    e.Up ∧ e.skipSysvipc = false ∧ e.table tab ≠ none ∧ e.Wires tab c ∧
      e.safeRead (Site.ipc tab c).slot = true ∧ e.patchErr (Site.ipc tab c).slot = 0

/-- Whether the slot is taken back depends on the pointer to its original. -/
def ByPointer (e : Env) : Site → Prop
  | .unshare => e.patchErr Site.reboot.slot = 0
  | .clone => e.patchErr Site.clone3.slot = 0
  | .ipc .. => False
  | _ => True

/-- Every slot that the module's entry gets into is given back: the restoring
    write works, and the pointer that it depends on is not `NULL`. -/
def Restores (e : Env) (m : Tab × ℤ → ℕ) : Prop :=
  ∀ σ, e.Written σ → e.fn σ ≠ m σ.slot →
    e.unpatchErr σ.slot = 0 ∧ (e.ByPointer σ → m σ.slot ≠ 0)

/-- A slot after a load and an unload, or after a load that failed. -/
def loadV (e : Env) (σ : Site) (v : View) : View :=
  if e.Up then e.exitV σ (e.initV σ v) else e.downV σ v

theorem load_view (e : Env) (m : Tab × ℤ → ℕ) :
    Within m 40 (e.loadUnload (State.fresh m)) ∧
      (e.loadUnload (State.fresh m)).view = fun σ => e.loadV σ (freshV m σ) := by
  unfold loadUnload loadV
  dsimp only
  by_cases hup : e.Up
  · obtain ⟨hret, hw, hv⟩ := slotInit_up (m := m) hup
    obtain ⟨hw', hv'⟩ := slotExit_spec (e := e) hw
    rw [if_neg (not_not.2 hret)]
    refine ⟨hw', hv'.trans (funext fun σ => ?_)⟩
    rw [hv, if_pos hup]
  · obtain ⟨hret, hw, hv⟩ := slotInit_down (m := m) hup
    rw [if_pos hret]
    refine ⟨Within.mono hw (by decide), hv.trans (funext fun σ => ?_)⟩
    rw [if_neg hup]

/-- The module's entry has been written over `o`, and is taken back if `c` holds. -/
theorem taken_back {f o : ℕ} {err : ℤ} {c : Prop} [Decidable c] :
    (if c then if err = 0 then o else f else f) = o ↔ (f ≠ o → err = 0 ∧ c) := by
  by_cases hc : c <;> by_cases herr : err = 0 <;> simp [hc, herr]

theorem patchV_fresh (htab : e.table σ.tab ≠ none) (herr : e.patchErr σ.slot = 0) :
    e.patchV σ (freshV m σ) = ⟨e.fn σ, some (m σ.slot), m σ.slot, false⟩ := by
  have ht : e.Takes σ (freshV m σ) := ⟨htab, rfl⟩
  rw [patchV, if_pos ht, writeV, if_pos herr]
  rfl

theorem unpatchV_cur {v : View} {o : ℕ} (htab : e.table σ.tab ≠ none) (hv : v.saved = some o) :
    (e.unpatchV σ v).cur = if e.unpatchErr σ.slot = 0 then o else v.cur := by
  unfold unpatchV
  rw [if_neg htab, hv]

theorem unpatchV_saved {v : View} (htab : e.table σ.tab ≠ none) : (e.unpatchV σ v).saved = none := by
  unfold unpatchV
  rw [if_neg htab]
  split
  case h_1 h => exact h
  case h_2 => rfl

theorem unpatchV_not_saved {v : View} (hv : v.saved = none) : e.unpatchV σ v = v := by
  unfold unpatchV
  rw [hv, ite_self]

theorem exitV_not_saved {v : View} (hv : v.saved = none) : (e.exitV σ v).cur = v.cur := by
  unfold exitV
  split
  · split
    · rw [unpatchV_not_saved hv]
    · rfl
  · rw [unpatchV_not_saved hv, ite_self]

/-- A slot whose pointer is looked at. -/
theorem exit_pointer (hσ : ∀ tab c, σ ≠ .ipc tab c) (htab : e.table σ.tab ≠ none)
    {f o : ℕ} {b : Bool} :
    (e.exitV σ ⟨f, some o, o, b⟩).cur = o ↔ (f ≠ o → e.unpatchErr σ.slot = 0 ∧ o ≠ 0) := by
  have hV : e.exitV σ ⟨f, some o, o, b⟩ =
      if o ≠ 0 then e.unpatchV σ ⟨f, some o, o, b⟩ else ⟨f, some o, o, b⟩ := by
    cases σ with
    | ipc tab c => exact absurd rfl (hσ tab c)
    | _ => rfl
  rw [hV, ← taken_back, apply_ite View.cur, unpatchV_cur htab rfl]

/-- A slot that is written is what init makes of it until it is taken back. -/
theorem loadV_written (hw : e.Written σ) :
    (e.loadV σ (freshV m σ)).cur = m σ.slot ↔
      (e.fn σ ≠ m σ.slot → e.unpatchErr σ.slot = 0 ∧ (e.ByPointer σ → m σ.slot ≠ 0)) := by
  cases σ with
  | unshare =>
    obtain ⟨hsc, htab, hue⟩ := hw
    by_cases hre : e.patchErr Site.reboot.slot = 0
    · have hup : e.Up := ⟨hsc, htab, hue, hre⟩
      rw [loadV, if_pos hup, initV, patchV_fresh htab hue, exit_pointer (by simp) htab]
      simp [ByPointer, hre]
    · have hup : ¬ e.Up := fun hup => hre hup.2.2.2
      rw [loadV, if_neg hup]
      simp only [downV, hsc, hue, ne_eq, not_true_eq_false, if_false]
      rw [patchV_fresh htab hue, unpatchV_cur htab rfl]
      simp [ByPointer, hre, imp_iff_not_or, or_comm]
  | reboot =>
    have hup : e.Up := hw
    rw [loadV, if_pos hup, initV, patchV_fresh hup.2.1 hup.2.2.2, exit_pointer (by simp) hup.2.1]
    simp [ByPointer]
  | clone =>
    obtain ⟨hup, hce⟩ := hw
    rw [loadV, if_pos hup, initV, cloneV]
    by_cases hc3e : e.patchErr Site.clone3.slot = 0
    · rw [if_neg fun h => h.2 hc3e, patchV_fresh hup.2.1 hce, exit_pointer (by simp) hup.2.1]
      simp [ByPointer, hc3e]
    · rw [if_pos ⟨hce, hc3e⟩, patchV_fresh hup.2.1 hce, exitV_not_saved (unpatchV_saved hup.2.1),
        unpatchV_cur hup.2.1 rfl]
      simp [ByPointer, hc3e, imp_iff_not_or, or_comm]
  | clone3 =>
    obtain ⟨hup, hce, hc3e⟩ := hw
    rw [loadV, if_pos hup, initV, cloneV, if_pos hce, patchV_fresh hup.2.1 hc3e,
      exit_pointer (by simp) hup.2.1]
    simp [ByPointer]
  | ipc tab c =>
    obtain ⟨hup, hskip, htab, hwire, hread, herr⟩ := hw
    have hinit : e.initV (.ipc tab c) (freshV m (.ipc tab c)) =
        ⟨e.fn (.ipc tab c), some (m (Site.ipc tab c).slot), m (Site.ipc tab c).slot, true⟩ := by
      have ht : e.Takes (.ipc tab c) (freshV m (.ipc tab c)) := ⟨htab, rfl⟩
      rw [initV, ipcsV, if_neg (by simp [hskip]), ipcV, if_pos hwire, attachV,
        if_pos ⟨ht, hread⟩, if_pos herr, writeV, if_pos herr]
      rfl
    rw [loadV, if_pos hup, hinit, exitV, if_pos rfl, unpatchV_cur htab rfl]
    simp [ByPointer, imp_iff_not_or, or_comm]

/-- The slot is as it was, and a saved original is that too. -/
def Same (o : ℕ) (v : View) : Prop := v.cur = o ∧ ∀ x, v.saved = some x → x = o

theorem same_fresh (m : Tab × ℤ → ℕ) (σ : Site) : Same (m σ.slot) (freshV m σ) :=
  ⟨rfl, fun _ h => by cases h⟩

theorem same_write {o : ℕ} {v : View} (h : Same o v) (herr : e.patchErr σ.slot ≠ 0) :
    Same o (e.writeV σ v) := by
  rw [writeV, if_neg herr]
  exact ⟨h.1, fun x hx => (Option.some.inj hx) ▸ h.1⟩

/-- A patch whose write fails. -/
theorem same_patch {o : ℕ} {v : View} (h : Same o v)
    (hno : ¬ (e.table σ.tab ≠ none ∧ e.patchErr σ.slot = 0)) : Same o (e.patchV σ v) := by
  unfold patchV
  split
  case isTrue ht => exact same_write h fun herr => hno ⟨ht.1, herr⟩
  case isFalse => exact h

theorem same_unpatch {o : ℕ} {v : View} (h : Same o v) : Same o (e.unpatchV σ v) := by
  unfold unpatchV
  split
  case isTrue => exact h
  split
  case h_1 => exact h
  case h_2 x hx =>
    refine ⟨?_, fun _ hy => by cases hy⟩
    dsimp only
    split
    · exact h.2 x hx
    · exact h.1

theorem same_exit {o : ℕ} {v : View} (h : Same o v) : Same o (e.exitV σ v) := by
  unfold exitV
  split
  · split
    · exact same_unpatch h
    · exact h
  · split
    · exact same_unpatch h
    · exact h

/-- A slot that is not written stays as it was. -/
theorem loadV_not_written (hw : ¬ e.Written σ) :
    Same (m σ.slot) (e.loadV σ (freshV m σ)) := by
  have h₀ := same_fresh m σ
  unfold loadV
  by_cases hup : e.Up
  case pos =>
    rw [if_pos hup]
    refine same_exit ?_
    cases σ with
    | unshare => exact absurd ⟨hup.1, hup.2.1, hup.2.2.1⟩ hw
    | reboot => exact absurd hup hw
    | clone =>
      have hce : e.patchErr Site.clone.slot ≠ 0 := fun hce => hw ⟨hup, hce⟩
      rw [initV, cloneV, if_neg fun h => hce h.1]
      exact same_patch h₀ fun h => hce h.2
    | clone3 =>
      unfold initV cloneV
      dsimp only
      split
      case isTrue hce => exact same_patch h₀ fun h => hw ⟨hup, hce, h.2⟩
      case isFalse => exact h₀
    | ipc tab c =>
      unfold initV ipcsV ipcV attachV
      dsimp only
      split
      case isTrue => exact h₀
      split
      case isFalse => exact h₀
      split
      case isFalse => exact h₀
      case isTrue hskip hwire ht =>
        have herr : e.patchErr (Site.ipc tab c).slot ≠ 0 := fun herr =>
          hw ⟨hup, by simpa using hskip, ht.1.1, hwire, ht.2, herr⟩
        rw [if_neg herr]
        exact same_write h₀ herr
  case neg =>
    rw [if_neg hup]
    cases σ with
    | unshare =>
      unfold downV
      dsimp only
      split
      case isTrue => exact h₀
      split
      case isTrue hue => exact same_patch h₀ fun h => hue h.2
      case isFalse hsc hue =>
        refine same_unpatch (same_patch h₀ fun h => hw ⟨?_, h.1, h.2⟩)
        exact not_not.1 hsc
    | reboot =>
      unfold downV
      dsimp only
      split
      case isTrue => exact h₀
      case isFalse h =>
        rw [not_or, not_not, not_not] at h
        exact same_patch h₀ fun ht => hup ⟨h.1, ht.1, h.2, ht.2⟩
    | _ => exact h₀

/-- One slot. -/
theorem loadV_cur (e : Env) (m : Tab × ℤ → ℕ) (σ : Site) :
    (e.loadV σ (freshV m σ)).cur = m σ.slot ↔
      (e.Written σ → e.fn σ ≠ m σ.slot →
        e.unpatchErr σ.slot = 0 ∧ (e.ByPointer σ → m σ.slot ≠ 0)) := by
  by_cases hw : e.Written σ
  · rw [loadV_written hw]
    exact ⟨fun h _ => h, fun h => h hw⟩
  · exact iff_of_true (loadV_not_written hw).1 fun h => absurd h hw

/-- **Loads that leave the tables as they were.** -/
theorem restores_iff (e : Env) (m : Tab × ℤ → ℕ) :
    (e.loadUnload (State.fresh m)).mem = m ↔ e.Restores m := by
  obtain ⟨hw, hv⟩ := load_view e m
  have hcur : ∀ σ : Site, (e.loadUnload (State.fresh m)).mem σ.slot = (e.loadV σ (freshV m σ)).cur :=
    fun σ => congrArg View.cur (congrFun hv σ)
  refine ⟨fun h σ => ?_, fun h => funext fun k => ?_⟩
  · rw [← loadV_cur, ← hcur, h]
  · by_cases hk : ∃ σ : Site, σ.slot = k
    · obtain ⟨σ, rfl⟩ := hk
      rw [hcur, loadV_cur]
      exact h σ
    · exact hw.others k fun σ hσ => hk ⟨σ, hσ⟩

end Env

/-! ## The module's slots -/

/-- **The saved entries are the slots that differ.**  Any run of patches that, where
    they get to their write, change the slot, and of unpatches that, where they
    find an entry, restore it, keeps one entry for each slot that differs and no
    other.  A patch that fails leaves the entries alone, unless its write is what
    failed.  A load with its unload, or a failed load, leaves the tables as they
    were if and only if every slot that was written is given back. -/
theorem slots_tracked (m : Tab × ℤ → ℕ) :
    (∀ s, Machine.RunIf step Good (State.fresh m) s → Tracks m s) ∧
    (∀ (s : State) (tab : Option Tab) (nr : ℤ) (fn : ℕ) (err : ℤ),
      ((s.slotPatch tab nr fn err).1 ≠ 0 → (s.slotPatch tab nr fn err).2.2.saves = s.saves) ↔
        ¬ (s.Free tab nr ∧ err ≠ 0)) ∧
    ∀ e : Env, (e.loadUnload (State.fresh m)).mem = m ↔ e.Restores m :=
  ⟨fun _ h => tracks_run h, fun _ _ _ _ _ => State.slotPatch_saves, fun e => e.restores_iff m⟩

/-- Two slots, the first of which is given back. -/
theorem slots_tracked_two :
    ∃ s, Machine.RunIf step Good (State.fresh fun _ => 7) s ∧
      s.saves = [⟨.compat, 274, 7⟩] ∧ Tracks (fun _ => 7) s := by
  obtain ⟨s, hs, hsaves⟩ := Machine.execIf_check (C := Good) step (fun s a => decide (Good s a))
    (fun s a h => of_decide_eq_true h) (State.fresh fun _ => 7)
    [.patch (some .native) 97 8 0, .patch (some .compat) 274 9 0, .patch none 97 8 0,
      .unpatch (some .native) 97 0]
    (fun s => s.saves = [⟨.compat, 274, 7⟩]) (by decide)
  exact ⟨s, hs, of_decide_eq_true hsaves, (slots_tracked fun _ => 7).1 s hs⟩

/-- A patch whose write fails leaves an entry for a slot that does not differ. -/
theorem slots_mistracked :
    ∃ s, Machine.Run step (State.fresh fun _ => 7) s ∧ ¬ Tracks (fun _ => 7) s ∧
      s.mem = (fun _ => 7) ∧ s.saves = [⟨.native, 97, 7⟩] ∧
      ((State.fresh fun _ => 7).slotPatch (some .native) 97 8 (-EFAULT)).1 ≠ 0 := by
  refine ⟨((State.fresh fun _ => 7).slotPatch (some .native) 97 8 (-EFAULT)).2.2,
    Relation.ReflTransGen.single ⟨.patch (some .native) 97 8 (-EFAULT), trivial, rfl⟩,
    fun h => ?_, by rfl, by rfl, by decide⟩
  have h97 := h (.native, 97)
  revert h97
  decide

end DroidLkm.Tables
