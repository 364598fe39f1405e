/-
  Wiring, initialisation and teardown of the SysV tables.

  * `Agrees`: what the ownership flags are to guarantee together;
  * `Served`: the steps at which the three places that test them agree;
  * `wiring_agrees`: runs of such steps keep the guarantee;
  * `queue_lost`: with SysV of the kernel and namespaces of the module, the
    objects of a namespace are lost when it is freed.
-/
import Mathlib.Tactic.ByContra
import Mathlib.Tactic.SplitIfs
import DroidLkm.Wiring.World

namespace DroidLkm.Wiring

open Machine

variable {k : Kernel} {w w' : World} {x x' : IpcNs} {o : Obj} {c : Cls} {n m t : ℕ} {act : Act}
  {last : ℕ → Bool}

/-- Each table has been initialised by one party. -/
def IpcNs.Once (x : IpcNs) : Prop := ∀ c, (x.inits c).length = 1

/-- No objects are left. -/
def IpcNs.Empty (x : IpcNs) : Prop := ∀ c, x.ids c = []

/-- Wiring agrees with initialisation and teardown. -/
structure Agrees (k : Kernel) (w : World) : Prop where
  /-- a thread that can make a call is in a namespace with its tables -/
  initialised : w.rowsWired k = true →
    ∀ o ∈ w.tasks, ∃ x, w.ns (o.getD k.host) = some x ∧ x.Once
  /-- what was made in a namespace of the module was released with it -/
  released : ∀ o ∈ w.made, w.ns o.ns = none → (o.id, o.cls) ∈ w.released
  /-- the tables of the kernel are left alone if the calls are -/
  untouched : ipcRowSkipped k.ipcnsInit false ⟨false⟩ = true →
    ∀ x ∈ w.torn, ∀ c, .kernel ∉ x.inits c

/-- The steps at which the flags agree. -/
def Served (k : Kernel) (w : World) : Act → Prop
  | .load acctInit acctHost =>
    -- a kernel without SysV has given nobody a table but through the host
    (k.sysv = true ∨ ∀ o ∈ w.tasks, o = none ∨ o = some k.host) ∧
      if k.kernelOwned then k.sysv = true ∨ acctHost = true else acctInit = true
  | .kernelCopy _ => k.sysv = true ∨ w.rowsWired k = false
  | .enter _ n => k.sysv = true ∨ w.rowsWired k = false ∨
      ∀ x, w.ns n = some x → x.origin = .kernel → n = k.host
  | .free n => k.sysv = k.kernelOwned ∨
      ∀ x, w.ns n = some x → x.origin.created = true → x.Empty
  | .exit last => if k.sysv && k.kernelOwned then ∀ x, w.ns k.host = some x → x.inUse = true
      else ∀ n x, w.ns n = some x → x.origin = .asked → last n = true → x.Empty
  | _ => True

/-- What holds in runs of such steps. -/
structure Inv (k : Kernel) (w : World) : Prop where
  fresh : 2 ≤ w.next ∧ ∀ n, w.next ≤ n → w.ns n = none
  cold : w.loaded = false → w.exited = false ∧ w.ns initIpcNs = none ∧
    (k.sysv = false → ∀ x, w.ns ipcnsOrig = some x → ∀ c, x.inits c = [])
  first : (k.wired = true → ∃ x, w.ns ipcnsOrig = some x) ∧
    ∀ n x, w.ns n = some x → n < 2 → x.origin.created = false
  created : ∀ n x, w.ns n = some x → x.origin.created = true → w.loaded = true ∧ x.Once ∧
    x.origin = if k.kernelOwned then .asked else .own
  kernel : k.sysv = true → ∀ n x, w.ns n = some x → x.origin = .kernel → x.Once
  static : ∀ n x, w.ns n = some x → x.origin = .static → n = initIpcNs
  host : w.loaded = true → ∃ x, w.ns k.host = some x ∧ x.Once
  tasks : ∀ n, some n ∈ w.tasks → ∃ x, w.ns n = some x ∧ (w.rowsWired k = true → x.Once)
  objs : ∀ o ∈ w.made, (o.id, o.cls) ∈ w.released ∨
    ∃ x, w.ns o.ns = some x ∧ x.origin.created = true ∧ o.id ∈ x.ids o.cls
  skipped : k.sysv = true → k.kernelOwned = true → w.made = [] ∧ w.torn = []

theorem host_lt (k : Kernel) : k.host < 2 := by
  unfold Kernel.host initIpcNs ipcnsOrig
  split <;> decide

/-! ## Steps that make no namespace -/

/-- No namespace and no thread is added, and what has initialised the tables
    is as it was; those that are gone are not needed. -/
structure Within (w w' : World) : Prop where
  next : w'.next = w.next
  loaded : w'.loaded = w.loaded
  exited : w.exited = true → w'.exited = true
  back : ∀ n x', w'.ns n = some x' →
    ∃ x, w.ns n = some x ∧ x'.origin = x.origin ∧ x'.inits = x.inits
  stay : ∀ n x, w.ns n = some x → n < 2 ∨ some n ∈ w'.tasks →
    ∃ x', w'.ns n = some x' ∧ x'.origin = x.origin ∧ x'.inits = x.inits
  tasks : ∀ n, some n ∈ w'.tasks → some n ∈ w.tasks

theorem loaded_of_wired (hr : w.rowsWired k = true) : w.loaded = true := by
  unfold World.rowsWired at hr
  rw [Bool.and_eq_true, Bool.and_eq_true] at hr
  exact hr.1.1

theorem Within.wired (h : Within w w') (hr : w'.rowsWired k = true) : w.rowsWired k = true := by
  unfold World.rowsWired at hr ⊢
  rw [Bool.and_eq_true, Bool.and_eq_true, Bool.not_eq_true'] at hr ⊢
  obtain ⟨⟨hl, he⟩, hs⟩ := hr
  refine ⟨⟨h.loaded ▸ hl, ?_⟩, hs⟩
  rw [← Bool.not_eq_true]
  intro he'
  rw [h.exited he'] at he
  cases he

theorem once_of_inits (h : x'.inits = x.inits) (hx : x.Once) : x'.Once := by
  intro c
  rw [h]
  exact hx c

theorem Inv.within (h : Inv k w) (hw : Within w w') (hcold : w'.loaded = false → w'.exited = false)
    (hobjs : ∀ o ∈ w'.made, (o.id, o.cls) ∈ w'.released ∨
      ∃ x, w'.ns o.ns = some x ∧ x.origin.created = true ∧ o.id ∈ x.ids o.cls)
    (hskip : k.sysv = true → k.kernelOwned = true → w'.made = [] ∧ w'.torn = []) : Inv k w' where
  fresh := by
    refine ⟨hw.next ▸ h.fresh.1, fun n hn => ?_⟩
    by_contra hne
    obtain ⟨x', hx'⟩ := Option.ne_none_iff_exists'.1 hne
    obtain ⟨x, hx, -⟩ := hw.back n x' hx'
    rw [h.fresh.2 n (hw.next ▸ hn)] at hx
    cases hx
  cold hl := by
    obtain ⟨-, h0, h1⟩ := h.cold (hw.loaded ▸ hl)
    refine ⟨hcold hl, ?_, fun hs x' hx' c => ?_⟩
    · by_contra hne
      obtain ⟨x', hx'⟩ := Option.ne_none_iff_exists'.1 hne
      obtain ⟨x, hx, -⟩ := hw.back _ x' hx'
      rw [h0] at hx
      cases hx
    · obtain ⟨x, hx, -, hi⟩ := hw.back _ x' hx'
      rw [hi]
      exact h1 hs x hx c
  first := by
    refine ⟨fun hwired => ?_, fun n x' hx' hn => ?_⟩
    · obtain ⟨x, hx⟩ := h.first.1 hwired
      obtain ⟨x', hx', -⟩ := hw.stay _ x hx (.inl (by decide))
      exact ⟨x', hx'⟩
    · obtain ⟨x, hx, ho, -⟩ := hw.back n x' hx'
      rw [ho]
      exact h.first.2 n x hx hn
  created n x' hx' hc := by
    obtain ⟨x, hx, ho, hi⟩ := hw.back n x' hx'
    rw [ho] at hc ⊢
    obtain ⟨hl, honce, hasked⟩ := h.created n x hx hc
    exact ⟨hw.loaded ▸ hl, once_of_inits hi honce, hasked⟩
  kernel hs n x' hx' hk := by
    obtain ⟨x, hx, ho, hi⟩ := hw.back n x' hx'
    exact once_of_inits hi (h.kernel hs n x hx (ho ▸ hk))
  static n x' hx' hk := by
    obtain ⟨x, hx, ho, -⟩ := hw.back n x' hx'
    exact h.static n x hx (ho ▸ hk)
  host hl := by
    obtain ⟨x, hx, honce⟩ := h.host (hw.loaded ▸ hl)
    obtain ⟨x', hx', -, hi⟩ := hw.stay _ x hx (.inl (host_lt k))
    exact ⟨x', hx', once_of_inits hi honce⟩
  tasks n hn := by
    obtain ⟨x, hx, honce⟩ := h.tasks n (hw.tasks n hn)
    obtain ⟨x', hx', -, hi⟩ := hw.stay n x hx (.inr hn)
    exact ⟨x', hx', fun hr => once_of_inits hi (honce (hw.wired hr))⟩
  objs := hobjs
  skipped := hskip

/-- The objects of one namespace change. -/
theorem within_ids {f : Cls → List ℕ} (hx : w.ns n = some x) (hns : w'.ns =
      Function.update w.ns n (some { x with ids := f }))
    (hn : w'.next = w.next) (hl : w'.loaded = w.loaded) (he : w'.exited = w.exited)
    (ht : w'.tasks = w.tasks) : Within w w' := by
  refine ⟨hn, hl, fun h => he ▸ h, fun m x' hx' => ?_, fun m y hy _ => ?_, fun m hm => ht ▸ hm⟩
  · rw [hns] at hx'
    by_cases hm : m = n
    · subst hm
      rw [Function.update_self] at hx'
      obtain rfl := Option.some.inj hx'
      exact ⟨x, hx, rfl, rfl⟩
    · rw [Function.update_of_ne hm] at hx'
      exact ⟨x', hx', rfl, rfl⟩
  · rw [hns]
    by_cases hm : m = n
    · subst hm
      rw [hx] at hy
      obtain rfl := Option.some.inj hy
      exact ⟨_, Function.update_self .., rfl, rfl⟩
    · exact ⟨y, by rw [Function.update_of_ne hm]; exact hy, rfl, rfl⟩

/-- A namespace without threads goes. -/
theorem within_free (hns : w'.ns = Function.update w.ns n none) (h2 : 2 ≤ n)
    (hnot : some n ∉ w.tasks) (hn : w'.next = w.next) (hl : w'.loaded = w.loaded)
    (he : w'.exited = w.exited) (ht : w'.tasks = w.tasks) : Within w w' := by
  refine ⟨hn, hl, fun h => he ▸ h, fun m x' hx' => ?_, fun m y hy hm => ?_, fun m hm => ht ▸ hm⟩
  · rw [hns] at hx'
    by_cases hmn : m = n
    · subst hmn
      rw [Function.update_self] at hx'
      cases hx'
    · rw [Function.update_of_ne hmn] at hx'
      exact ⟨x', hx', rfl, rfl⟩
  · have hmn : m ≠ n := by
      rintro rfl
      rcases hm with hm | hm
      · omega
      · exact hnot (ht ▸ hm)
    exact ⟨y, by rw [hns, Function.update_of_ne hmn]; exact hy, rfl, rfl⟩

/-! ## Objects -/

theorem mem_freed {i : ℕ} (h : i ∈ x.ids c) : (i, c) ∈ x.freed := by
  unfold IpcNs.freed
  cases c <;> simp [h]

theorem not_inUse (h : x.inUse = false) : x.Empty := by
  unfold IpcNs.inUse at h
  simp only [Bool.or_eq_false_iff, decide_eq_false_iff_not, not_not] at h
  intro c
  cases c
  · exact h.1.1
  · exact h.1.2
  · exact h.2

/-- The namespace goes, and its objects were released or there were none. -/
theorem objs_free (h : Inv k w) (hx : w.ns n = some x) (hns : w'.ns = Function.update w.ns n none)
    (hmade : w'.made = w.made) (hsub : ∀ p ∈ w.released, p ∈ w'.released)
    (hfree : x.origin.created = true → x.Empty ∨ ∀ p ∈ x.freed, p ∈ w'.released) :
    ∀ o ∈ w'.made, (o.id, o.cls) ∈ w'.released ∨
      ∃ x, w'.ns o.ns = some x ∧ x.origin.created = true ∧ o.id ∈ x.ids o.cls := by
  intro o ho
  rcases h.objs o (hmade ▸ ho) with hr | ⟨y, hy, hc, hi⟩
  · exact .inl (hsub _ hr)
  · by_cases hn : o.ns = n
    · rw [hn, hx] at hy
      obtain rfl := Option.some.inj hy
      rcases hfree hc with he | hf
      · rw [he] at hi
        cases hi
      · exact .inl (hf _ (mem_freed hi))
    · exact .inr ⟨y, by rw [hns, Function.update_of_ne hn]; exact hy, hc, hi⟩

/-! ## The free paths -/

theorem two_le (h : Inv k w) (hx : w.ns n = some x) (hc : x.origin.created = true) : 2 ≤ n := by
  by_contra hn
  rw [h.first.2 n x hx (by omega)] at hc
  cases hc

/-- What `ds_free_ipc_ns` frees has released its objects, or had none. -/
theorem dsFree_inv (h : Inv k w) (hx : w.ns n = some x) (ho : x.origin = .own)
    (hnot : some n ∉ w.tasks) (he : k.sysv = k.kernelOwned ∨ x.Empty) :
    Inv k (w.dsFreeIpcNs k n x) := by
  have hc : x.origin.created = true := by rw [ho]; rfl
  obtain ⟨-, -, horig⟩ := h.created n x hx hc
  have howned : k.kernelOwned = false := by
    by_contra hk
    rw [ho, if_pos (by simpa using hk)] at horig
    cases horig
  refine h.within (within_free rfl (two_le h hx hc) hnot rfl rfl rfl rfl) (fun hl => (h.cold hl).1)
    (objs_free h hx rfl rfl ?_ ?_) (fun _ hk => by rw [howned] at hk; cases hk)
  · intro p hp
    unfold World.dsFreeIpcNs
    dsimp only
    split
    · exact List.mem_append_right _ hp
    · exact hp
  · intro _
    rcases he with he | he
    · right
      intro p hp
      unfold World.dsFreeIpcNs
      dsimp only
      rw [Kernel.sysvipc_owner, he, howned]
      exact List.mem_append_left _ hp
    · exact .inl he

/-- The kernel's own releases the objects with SysV only. -/
theorem kernelFree_inv (h : Inv k w) (hx : w.ns n = some x) (h2 : 2 ≤ n)
    (hnot : some n ∉ w.tasks) (ho : x.origin ≠ .own)
    (he : x.origin = .asked → k.sysv = k.kernelOwned ∨ x.Empty) :
    Inv k (w.kernelFreeIpcNs k n x) := by
  refine h.within (within_free rfl h2 hnot rfl rfl rfl rfl) (fun hl => (h.cold hl).1)
    (objs_free h hx rfl rfl ?_ ?_) h.skipped
  · intro p hp
    unfold World.kernelFreeIpcNs
    dsimp only
    split
    · exact List.mem_append_right _ hp
    · exact hp
  · intro hc
    obtain ⟨-, -, horig⟩ := h.created n x hx hc
    by_cases howned : k.kernelOwned = true
    · rw [if_pos howned] at horig
      rcases he horig with he | he
      · right
        intro p hp
        unfold World.kernelFreeIpcNs
        dsimp only
        rw [if_pos (he.trans howned)]
        exact List.mem_append_left _ hp
      · exact .inl he
    · rw [if_neg howned] at horig
      exact absurd horig ho

/-! ## Unload -/

/-- No thread is left in a namespace that the module serves. -/
def Reset (k : Kernel) (w : World) : Prop :=
  ∀ n x, w.ns n = some x → n = k.host ∨ x.origin.created = true → some n ∉ w.tasks

theorem exitEntry_inv (h : Inv k w) (hr : Reset k w)
    (hs : if k.sysv && k.kernelOwned then ∀ x, w.ns k.host = some x → x.inUse = true
      else ∀ n x, w.ns n = some x → x.origin = .asked → last n = true → x.Empty) (n : ℕ) :
    Inv k (World.exitEntry k last w n) := by
  unfold World.exitEntry
  cases hx : w.ns n with
  | none => exact h
  | some x =>
    dsimp only
    by_cases hhost : n = k.host
    · rw [if_pos hhost]
      split
      · exact h
      next huse =>
        refine h.within ⟨rfl, rfl, id, fun _ y hy => ⟨y, hy, rfl, rfl⟩,
          fun _ y hy _ => ⟨y, hy, rfl, rfl⟩, fun _ hm => hm⟩ (fun hl => (h.cold hl).1) h.objs ?_
        intro hsysv hk
        rw [hsysv, hk, Bool.and_self, if_pos rfl] at hs
        exact absurd (hs x (hhost ▸ hx)) huse
    · rw [if_neg hhost]
      cases ho : x.origin with
      | asked =>
        dsimp only
        split
        next hlast =>
          have hc : x.origin.created = true := by rw [ho]; rfl
          refine kernelFree_inv h hx (two_le h hx hc) (hr n x hx (.inr hc)) (by rw [ho]; nofun)
            fun _ => ?_
          obtain ⟨-, -, horig⟩ := h.created n x hx hc
          have hk : k.kernelOwned = true := by
            by_contra hk
            rw [ho, if_neg hk] at horig
            cases horig
          by_cases hsysv : k.sysv = true
          · exact .inl (hsysv.trans hk.symm)
          · rw [if_neg (by simp [hsysv])] at hs
            exact .inr (hs n x hx ho hlast)
        · exact h
      | own =>
        dsimp only
        split
        next hlast =>
          have hc : x.origin.created = true := by rw [ho]; rfl
          rw [Bool.and_eq_true, Bool.not_eq_true'] at hlast
          exact dsFree_inv h hx ho (hr n x hx (.inr hc)) (.inr (not_inUse hlast.2))
        · exact h
      | _ => exact h

/-- What a pass of the loop leaves. -/
theorem exitEntry_sub (w : World) (n : ℕ) :
    (∀ m x, (World.exitEntry k last w n).ns m = some x → w.ns m = some x) ∧
      (World.exitEntry k last w n).tasks = w.tasks := by
  have hgone : ∀ m x, Function.update w.ns n none m = some x → w.ns m = some x := by
    intro m x hx
    by_cases hm : m = n
    · subst hm
      rw [Function.update_self] at hx
      cases hx
    · rwa [Function.update_of_ne hm] at hx
  have hsame : (∀ m x, w.ns m = some x → w.ns m = some x) ∧ w.tasks = w.tasks :=
    ⟨fun _ _ h => h, rfl⟩
  unfold World.exitEntry
  cases hx : w.ns n with
  | none => exact hsame
  | some x =>
    dsimp only
    by_cases hhost : n = k.host
    · rw [if_pos hhost]
      split <;> exact hsame
    · rw [if_neg hhost]
      cases x.origin with
      | asked =>
        dsimp only
        split
        · exact ⟨hgone, rfl⟩
        · exact hsame
      | own =>
        dsimp only
        split
        · exact ⟨hgone, rfl⟩
        · exact hsame
      | _ => exact hsame

theorem exitLoop_inv (l : List ℕ) (h : Inv k w) (hr : Reset k w)
    (hs : if k.sysv && k.kernelOwned then ∀ x, w.ns k.host = some x → x.inUse = true
      else ∀ n x, w.ns n = some x → x.origin = .asked → last n = true → x.Empty) :
    Inv k (l.foldl (World.exitEntry k last) w) := by
  induction l generalizing w with
  | nil => exact h
  | cons n l ih =>
    obtain ⟨hns, htasks⟩ : (∀ m x, (World.exitEntry k last w n).ns m = some x →
        w.ns m = some x) ∧ (World.exitEntry k last w n).tasks = w.tasks := exitEntry_sub w n
    refine ih (exitEntry_inv h hr hs n) (fun m x hx hm => ?_) ?_
    · rw [htasks]
      exact hr m x (hns m x hx) hm
    · split_ifs at hs ⊢
      · exact fun x hx => hs x (hns _ x hx)
      · exact fun m x hx => hs m x (hns m x hx)

theorem exit_inv (h : Inv k w) (hl : w.loaded = true)
    (hs : if k.sysv && k.kernelOwned then ∀ x, w.ns k.host = some x → x.inUse = true
      else ∀ n x, w.ns n = some x → x.origin = .asked → last n = true → x.Empty) :
    Inv k (w.ipcnsExit k last) := by
  have htask : ∀ n, some n ∈ w.tasks.map (w.resetTask k) → some n ∈ w.tasks ∧
      ∀ x, w.ns n = some x → ¬(n = k.host ∨ x.origin.created = true) := by
    intro n hn
    obtain ⟨o, ho, he⟩ := List.mem_map.1 hn
    unfold World.resetTask at he
    split at he
    · cases he
    next m =>
      split at he
      next hm =>
        obtain rfl := Option.some.inj he
        exact ⟨ho, fun x hx => by rw [hm] at hx; cases hx⟩
      next y hm =>
        split_ifs at he with hc
        obtain rfl := Option.some.inj he
        refine ⟨ho, fun x hx => ?_⟩
        rw [hm] at hx
        obtain rfl := Option.some.inj hx
        exact hc
  refine exitLoop_inv _ (h.within ⟨rfl, rfl, fun _ => rfl, fun _ y hy => ⟨y, hy, rfl, rfl⟩,
    fun _ y hy _ => ⟨y, hy, rfl, rfl⟩, fun n hn => (htask n hn).1⟩
    (fun hl' => by rw [hl] at hl'; cases hl') h.objs h.skipped) ?_ hs
  intro n x hx hm hn
  exact (htask n hn).2 x hx hm

/-! ## New namespaces -/

theorem inits_initIds (p : Owner) (c' : Cls) :
    (x.initIds p c).inits c' = if c' = c then x.inits c ++ [p] else x.inits c' := by
  unfold IpcNs.initIds
  dsimp only
  split
  next h => rw [h, Function.update_self]
  next h => rw [Function.update_of_ne h]

/-- The three tables are initialised, in whichever order. -/
theorem once_init {p q r : Owner} {a b : Cls} (h : ∀ c, x.inits c = []) (hab : a ≠ b) (hac : a ≠ c)
    (hbc : b ≠ c) : (((x.initIds p a).initIds q b).initIds r c).Once := by
  intro d
  cases a <;> cases b <;> cases c <;> cases d <;> simp_all [inits_initIds]

theorem once_kernelNew {origin : Origin} (h : k.sysv = true) : (k.kernelNew origin).Once := by
  intro c
  unfold Kernel.kernelNew
  dsimp only
  rw [if_pos h]
  rfl

theorem enterNew_inv (h : Inv k w) (ho : x.origin ≠ .static)
    (hc : x.origin.created = true → w.loaded = true ∧ x.Once ∧
      x.origin = if k.kernelOwned then .asked else .own)
    (hk : x.origin = .kernel → k.sysv = true → x.Once) (hr : w.rowsWired k = true → x.Once) :
    Inv k (w.enterNew t x) := by
  have hnext : w.ns w.next = none := h.fresh.2 _ (Nat.le_refl _)
  have hne : ∀ m y, w.ns m = some y → m ≠ w.next := by
    rintro m y hy rfl
    rw [hnext] at hy
    cases hy
  have hnew : ∀ m y, Function.update w.ns w.next (some x) m = some y →
      m = w.next ∧ y = x ∨ w.ns m = some y := by
    intro m y hy
    by_cases hm : m = w.next
    · subst hm
      rw [Function.update_self] at hy
      exact .inl ⟨rfl, (Option.some.inj hy).symm⟩
    · rw [Function.update_of_ne hm] at hy
      exact .inr hy
  have hold : ∀ m y, w.ns m = some y → Function.update w.ns w.next (some x) m = some y := by
    intro m y hy
    rw [Function.update_of_ne (hne m y hy)]
    exact hy
  have h2 := h.fresh.1
  unfold World.enterNew
  refine ⟨⟨Nat.le_succ_of_le h2, fun n hn => ?_⟩, fun hl => ?_, ⟨fun hw => ?_, fun n y hy hn => ?_⟩,
    fun n y hy hcr => ?_, fun hs n y hy hkr => ?_, fun n y hy hst => ?_, fun hl => ?_,
    fun n hn => ?_, fun o ho' => ?_, h.skipped⟩
  · have hn' : w.next + 1 ≤ n := hn
    dsimp only
    rw [Function.update_of_ne (by omega)]
    exact h.fresh.2 n (by omega)
  · obtain ⟨he, h0, h1⟩ := h.cold hl
    refine ⟨he, ?_, fun hs y hy => ?_⟩
    · dsimp only
      rw [Function.update_of_ne (by unfold initIpcNs; omega)]
      exact h0
    · rcases hnew _ y hy with ⟨hm, -⟩ | hy
      · unfold ipcnsOrig at hm
        omega
      · exact h1 hs y hy
  · obtain ⟨y, hy⟩ := h.first.1 hw
    exact ⟨y, hold _ y hy⟩
  · rcases hnew n y hy with ⟨hm, -⟩ | hy
    · omega
    · exact h.first.2 n y hy hn
  · rcases hnew n y hy with ⟨-, rfl⟩ | hy
    · exact hc hcr
    · exact h.created n y hy hcr
  · rcases hnew n y hy with ⟨-, rfl⟩ | hy
    · exact hk hkr hs
    · exact h.kernel hs n y hy hkr
  · rcases hnew n y hy with ⟨-, rfl⟩ | hy
    · exact absurd hst ho
    · exact h.static n y hy hst
  · obtain ⟨y, hy, honce⟩ := h.host hl
    exact ⟨y, hold _ y hy, honce⟩
  · rcases List.mem_or_eq_of_mem_set hn with hn | hn
    · obtain ⟨y, hy, honce⟩ := h.tasks n hn
      exact ⟨y, hold _ y hy, honce⟩
    · obtain rfl := Option.some.inj hn
      exact ⟨x, Function.update_self .., hr⟩
  · rcases h.objs o ho' with hrel | ⟨y, hy, hcr, hi⟩
    · exact .inl hrel
    · exact .inr ⟨y, hold _ y hy, hcr, hi⟩

/-- `droid_lkm_ipcns_create` -/
theorem create_inv {acct rest : Bool} (h : Inv k w) (hl : w.loaded = true) :
    Inv k (w.ipcnsCreate k t acct rest) := by
  have hown : k.ipcnsInit.sysvipc.owner = if k.sysv then .kernel else .lkm := k.sysvipc_owner
  unfold World.ipcnsCreate
  by_cases hk : k.kernelOwned = true
  · rw [if_pos hk]
    dsimp only
    by_cases hs : k.sysv = true
    · rw [if_pos hs] at hown
      rw [hown, if_neg (by simp)]
      have honce : (k.kernelNew .asked).Once := once_kernelNew hs
      split
      · exact enterNew_inv h (by simp [Kernel.kernelNew])
          (fun _ => ⟨hl, honce, (if_pos hk).symm⟩) (fun _ _ => honce) fun _ => honce
      · exact h
    · rw [if_neg hs] at hown
      rw [hown, if_pos rfl]
      unfold IpcNs.msgInitNs
      cases acct with
      | false => exact h
      | true =>
        have hnone : ∀ c, (k.kernelNew .asked).inits c = [] := fun _ => if_neg hs
        have honce := once_init (p := .lkm) (q := .lkm) (r := .lkm) hnone
          (by decide : Cls.msg ≠ .sem) (by decide : Cls.msg ≠ .shm) (by decide)
        cases rest with
        | false => exact h
        | true =>
          exact enterNew_inv h (by simp [IpcNs.semInitNs, IpcNs.shmInitNs, IpcNs.initIds,
            Kernel.kernelNew]) (fun _ => ⟨hl, honce, (if_pos hk).symm⟩) (fun _ _ => honce)
            fun _ => honce
  · rw [if_neg hk]
    unfold IpcNs.msgInitNs
    cases acct with
    | false => exact h
    | true =>
      have honce := once_init (x := ⟨.own, fun _ => [], fun _ => []⟩) (p := .lkm) (q := .lkm)
        (r := .lkm) (fun _ => rfl) (by decide : Cls.msg ≠ .sem) (by decide : Cls.msg ≠ .shm)
        (by decide)
      cases rest with
      | false => exact h
      | true =>
        exact enterNew_inv h (by simp [IpcNs.semInitNs, IpcNs.shmInitNs, IpcNs.initIds])
          (fun _ => ⟨hl, honce, (if_neg hk).symm⟩) (fun _ _ => honce) fun _ => honce

/-! ## Load -/

/-- The namespaces after the load: that of the module, and the first of the
    kernel with its tables. -/
theorem load_shape {f : IpcNs → IpcNs} (h : Inv k w) (hl : w.loaded = false)
    (hns : ∀ m, w'.ns m = if m = initIpcNs then some x
      else if m = ipcnsOrig then (w.ns m).map f else w.ns m)
    (hload : w'.loaded = true) (hnext : w'.next = w.next) (htask : w'.tasks = w.tasks)
    (hmade : w'.made = w.made) (hrel : w'.released = w.released) (htorn : w'.torn = w.torn)
    (hx : x.origin = .static) (hf : ∀ y, (f y).origin = y.origin)
    (hfs : k.sysv = true → ∀ y, (f y).inits = y.inits)
    (hhost : ∃ y, w'.ns k.host = some y ∧ y.Once)
    (hs : k.sysv = true ∨ ∀ o ∈ w.tasks, o = none ∨ o = some k.host) : Inv k w' := by
  obtain ⟨-, h0, -⟩ := h.cold hl
  have hcreated : ∀ m y, w.ns m = some y → y.origin.created = false := by
    intro m y hy
    by_contra hc
    have := (h.created m y hy (by simpa using hc)).1
    rw [hl] at this
    cases this
  -- a namespace is that of the module, or was there
  have hback : ∀ m y', w'.ns m = some y' → m = initIpcNs ∧ y' = x ∨
      ∃ y, w.ns m = some y ∧ y'.origin = y.origin ∧ (k.sysv = true → y'.inits = y.inits) := by
    intro m y' hy'
    rw [hns] at hy'
    split_ifs at hy' with hm hm
    · exact .inl ⟨hm, (Option.some.inj hy').symm⟩
    · obtain ⟨y, hy, rfl⟩ := Option.map_eq_some_iff.1 hy'
      exact .inr ⟨y, hy, hf y, fun hs => hfs hs y⟩
    · exact .inr ⟨y', hy', rfl, fun _ => rfl⟩
  have hstay : ∀ m y, w.ns m = some y →
      ∃ y', w'.ns m = some y' ∧ (k.sysv = true → y'.inits = y.inits) := by
    intro m y hy
    have hm0 : m ≠ initIpcNs := by
      rintro rfl
      rw [h0] at hy
      cases hy
    rw [hns, if_neg hm0, hy]
    split
    · exact ⟨f y, rfl, fun hs => hfs hs y⟩
    · exact ⟨y, rfl, fun _ => rfl⟩
  refine ⟨⟨hnext ▸ h.fresh.1, fun n hn => ?_⟩, fun hl' => absurd (hload.symm.trans hl') nofun,
    ⟨fun hw => ?_, fun n y' hy' _ => ?_⟩, fun n y' hy' hc => ?_, fun hsysv n y' hy' hk => ?_,
    fun n y' hy' hst => ?_, fun _ => hhost, fun n hn => ?_, fun o ho => ?_, ?_⟩
  · have h2 := h.fresh.1
    rw [hnext] at hn
    rw [hns, if_neg (by unfold initIpcNs; omega), if_neg (by unfold ipcnsOrig; omega)]
    exact h.fresh.2 n hn
  · obtain ⟨y, hy⟩ := h.first.1 hw
    obtain ⟨y', hy', -⟩ := hstay _ y hy
    exact ⟨y', hy'⟩
  · rcases hback n y' hy' with ⟨-, rfl⟩ | ⟨y, hy, ho, -⟩
    · rw [hx]
      rfl
    · rw [ho]
      exact hcreated n y hy
  · rcases hback n y' hy' with ⟨-, rfl⟩ | ⟨y, hy, ho, -⟩
    · rw [hx] at hc
      cases hc
    · rw [ho, hcreated n y hy] at hc
      cases hc
  · rcases hback n y' hy' with ⟨-, rfl⟩ | ⟨y, hy, ho, hi⟩
    · rw [hx] at hk
      cases hk
    · exact once_of_inits (hi hsysv) (h.kernel hsysv n y hy (ho ▸ hk))
  · rcases hback n y' hy' with ⟨hm, -⟩ | ⟨y, hy, ho, -⟩
    · exact hm
    · exact h.static n y hy (ho ▸ hst)
  · rw [htask] at hn
    obtain ⟨y, hy, -⟩ := h.tasks n hn
    obtain ⟨y', hy', hi⟩ := hstay n y hy
    refine ⟨y', hy', fun _ => ?_⟩
    rcases hs with hsysv | hall
    · -- before the load there are only namespaces of the kernel
      refine once_of_inits (hi hsysv) (h.kernel hsysv n y hy ?_)
      have hc := hcreated n y hy
      cases hor : y.origin with
      | kernel => rfl
      | static =>
        rw [h.static n y hy hor, h0] at hy
        cases hy
      | asked => rw [hor] at hc; cases hc
      | own => rw [hor] at hc; cases hc
    · rcases hall _ hn with hnone | hsome
      · cases hnone
      · obtain rfl := Option.some.inj hsome
        obtain ⟨z, hz, honce⟩ := hhost
        rw [hy'] at hz
        obtain rfl := Option.some.inj hz
        exact honce
  · rw [hmade] at ho
    rw [hrel]
    rcases h.objs o ho with hr | ⟨y, hy, hc, -⟩
    · exact .inl hr
    · rw [hcreated _ y hy] at hc
      cases hc
  · rw [hmade, htorn]
    exact h.skipped

/-- The namespace of the module, as `ipc_init` and `shm_init_ns` leave it. -/
theorem static_once (acctInit : Bool) : ∃ x : IpcNs,
    ((IpcNs.mk .static (fun _ => []) fun _ => []).semInitNs.msgInitNs acctInit).1.shmInitNs = x ∧
      x.origin = .static ∧ (acctInit = true → x.Once) := by
  refine ⟨_, rfl, ?_, ?_⟩
  · unfold IpcNs.msgInitNs
    split <;> rfl
  · rintro rfl
    exact once_init (fun _ => rfl) (by decide : Cls.sem ≠ .msg) (by decide : Cls.sem ≠ .shm)
      (by decide)

theorem load_inv {acctInit acctHost : Bool} (h : Inv k w) (hl : w.loaded = false)
    (hs : Served k w (.load acctInit acctHost)) : Inv k (w.ipcnsLoad k acctInit acctHost) := by
  obtain ⟨htasks, hacct⟩ := hs
  have hown : k.ipcnsInit.sysvipc.owner = if k.sysv then .kernel else .lkm := k.sysvipc_owner
  obtain ⟨x, hxe, hstatic, honce⟩ := static_once acctInit
  have hne : initIpcNs ≠ ipcnsOrig := by decide
  unfold World.ipcnsLoad World.setNs
  dsimp only
  rw [hxe]
  by_cases hk : k.kernelOwned = true
  · rw [if_pos hk] at hacct ⊢
    have hhost : k.host = ipcnsOrig := if_pos hk
    obtain ⟨y, hy⟩ := h.first.1 (Kernel.ipcNs_of_kernelOwned hk).2
    rw [hhost, Function.update_of_ne hne.symm, hy]
    dsimp only
    by_cases hsysv : k.sysv = true
    · rw [if_pos hsysv] at hown
      rw [hown, if_neg (by simp)]
      -- the kernel has filled its first namespace
      have hkernel : y.origin = .kernel := by
        have hc := h.first.2 _ y hy (by decide)
        cases ho : y.origin with
        | kernel => rfl
        | static => exact absurd (h.static _ y hy ho) hne.symm
        | asked => rw [ho] at hc; cases hc
        | own => rw [ho] at hc; cases hc
      refine load_shape (f := id) h hl (fun m => ?_) rfl rfl rfl rfl rfl rfl hstatic
        (fun _ => rfl) (fun _ _ => rfl) ⟨y, ?_, h.kernel hsysv _ y hy hkernel⟩ htasks
      · dsimp only
        by_cases hm : m = initIpcNs
        · rw [if_pos hm, hm, Function.update_self]
        · rw [if_neg hm, Function.update_of_ne hm, Option.map_id, id_eq, ite_self]
      · dsimp only
        rw [hhost, Function.update_of_ne hne.symm]
        exact hy
    · rw [if_neg hsysv] at hown
      rw [hown, if_pos (by simp)]
      obtain rfl : acctHost = true := hacct.resolve_left hsysv
      have hnone := (h.cold hl).2.2 (by simpa using hsysv) y hy
      refine load_shape (f := fun y => (y.msgInitNs true).1.semInitNs.shmInitNs) h hl (fun m => ?_)
        rfl rfl rfl rfl rfl rfl hstatic (fun _ => rfl) (fun hs => absurd hs hsysv)
        ⟨(y.msgInitNs true).1.semInitNs.shmInitNs, ?_, ?_⟩ htasks
      · dsimp only
        by_cases hm : m = ipcnsOrig
        · rw [hm, Function.update_self, if_neg hne.symm, if_pos rfl, hy]
          rfl
        · rw [Function.update_of_ne hm, if_neg hm]
          by_cases hm0 : m = initIpcNs
          · rw [if_pos hm0, hm0, Function.update_self]
          · rw [if_neg hm0, Function.update_of_ne hm0]
      · dsimp only
        rw [hhost, Function.update_self]
      · exact once_init hnone (by decide : Cls.msg ≠ .sem) (by decide : Cls.msg ≠ .shm)
          (by decide)
  · rw [if_neg hk] at hacct ⊢
    have hhost : k.host = initIpcNs := if_neg hk
    refine load_shape (f := id) h hl (fun m => ?_) rfl rfl rfl rfl rfl rfl hstatic (fun _ => rfl)
      (fun _ _ => rfl) ⟨x, ?_, honce hacct⟩ htasks
    · dsimp only
      by_cases hm : m = initIpcNs
      · rw [if_pos hm, hm, Function.update_self]
      · rw [if_neg hm, Function.update_of_ne hm, Option.map_id, id_eq, ite_self]
    · dsimp only
      rw [hhost, Function.update_self]

/-! ## Calls -/

theorem enter_inv (h : Inv k w) (hx : w.ns n = some x)
    (hn : ¬(n = initIpcNs ∧ k.host ≠ initIpcNs)) (hs : Served k w (.enter t n)) :
    Inv k { w with tasks := w.tasks.set t (some n) } := by
  refine ⟨h.fresh, h.cold, h.first, h.created, h.kernel, h.static, h.host, fun m hm => ?_, h.objs,
    h.skipped⟩
  rcases List.mem_or_eq_of_mem_set hm with hm | hm
  · exact h.tasks m hm
  · obtain rfl := Option.some.inj hm
    refine ⟨x, hx, fun hr => ?_⟩
    have hload := loaded_of_wired hr
    have hhost : m = k.host → x.Once := by
      rintro rfl
      obtain ⟨y, hy, honce⟩ := h.host hload
      rw [hx] at hy
      obtain rfl := Option.some.inj hy
      exact honce
    cases ho : x.origin with
    | static =>
      have hm0 := h.static m x hx ho
      exact hhost (hm0.trans (by by_contra hne; exact hn ⟨hm0, Ne.symm hne⟩))
    | kernel =>
      rcases hs with hsysv | hw | hk
      · exact h.kernel hsysv m x hx ho
      · exact absurd (hr.symm.trans hw) nofun
      · exact hhost (hk x hx ho)
    | asked => exact (h.created m x hx (by rw [ho]; rfl)).2.1
    | own => exact (h.created m x hx (by rw [ho]; rfl)).2.1

/-- An object is made in a namespace. -/
theorem get_inv {made : List Obj} (h : Inv k w) (hx : w.ns n = some x)
    (hmade : made = w.made ∨ w.rowsWired k = true ∧
      made = if x.origin.created then ⟨w.nextId, c, n⟩ :: w.made else w.made) :
    Inv k { w.newObj n x c with made } := by
  have hold : ∀ o ∈ w.made, (o.id, o.cls) ∈ w.released ∨ ∃ y,
      Function.update w.ns n (some { x with
        ids := Function.update x.ids c (w.nextId :: x.ids c) }) o.ns = some y ∧
      y.origin.created = true ∧ o.id ∈ y.ids o.cls := by
    intro o ho
    rcases h.objs o ho with hr | ⟨y, hy, hc, hi⟩
    · exact .inl hr
    · right
      by_cases hn : o.ns = n
      · rw [hn, hx] at hy
        obtain rfl := Option.some.inj hy
        refine ⟨{ x with ids := Function.update x.ids c (w.nextId :: x.ids c) },
          by rw [hn, Function.update_self], hc, ?_⟩
        dsimp only
        by_cases hcls : o.cls = c
        · rw [hcls, Function.update_self]
          exact List.mem_cons_of_mem _ (hcls ▸ hi)
        · rw [Function.update_of_ne hcls]
          exact hi
      · exact ⟨y, by rw [Function.update_of_ne hn]; exact hy, hc, hi⟩
  refine h.within (within_ids hx rfl rfl rfl rfl rfl) (fun hl => (h.cold hl).1) ?_ ?_
  · rcases hmade with rfl | ⟨-, rfl⟩
    · exact hold
    · intro o ho
      dsimp only at ho
      split at ho
      next hc =>
        rcases List.mem_cons.1 ho with rfl | ho
        · right
          refine ⟨_, Function.update_self .., hc, ?_⟩
          dsimp only
          rw [Function.update_self]
          exact List.mem_cons_self
        · exact hold o ho
      · exact hold o ho
  · intro hsysv hk
    rcases hmade with rfl | ⟨hr, -⟩
    · exact h.skipped hsysv hk
    · unfold World.rowsWired at hr
      rw [k.skipped_iff, hsysv, hk] at hr
      simp at hr

/-- An object is removed with the callback of its class. -/
theorem rmid_inv {i : ℕ} (h : Inv k w) (hx : w.ns n = some x) :
    Inv k { w with
      ns := Function.update w.ns n (some { x with
        ids := Function.update x.ids c ((x.ids c).erase i) })
      released := (i, c) :: w.released } := by
  refine h.within (within_ids hx rfl rfl rfl rfl rfl) (fun hl => (h.cold hl).1) ?_ h.skipped
  intro o ho
  rcases h.objs o ho with hr | ⟨y, hy, hc, hi⟩
  · exact .inl (List.mem_cons_of_mem _ hr)
  · by_cases hgone : (o.id, o.cls) = (i, c)
    · exact .inl (hgone ▸ List.mem_cons_self)
    · right
      by_cases hn : o.ns = n
      · rw [hn, hx] at hy
        obtain rfl := Option.some.inj hy
        refine ⟨{ x with ids := Function.update x.ids c ((x.ids c).erase i) },
          by dsimp only; rw [hn, Function.update_self], hc, ?_⟩
        dsimp only
        by_cases hcls : o.cls = c
        · have hne : o.id ≠ i := fun he => hgone (Prod.ext he hcls)
          rw [hcls, Function.update_self]
          exact (List.mem_erase_of_ne hne).2 (hcls ▸ hi)
        · rw [Function.update_of_ne hcls]
          exact hi
      · exact ⟨y, by dsimp only; rw [Function.update_of_ne hn]; exact hy, hc, hi⟩

/-- Threads come and go. -/
theorem threads_inv {tasks : List (Option ℕ)} (h : Inv k w)
    (ht : ∀ n, some n ∈ tasks → some n ∈ w.tasks) : Inv k { w with tasks } :=
  h.within ⟨rfl, rfl, id, fun _ y hy => ⟨y, hy, rfl, rfl⟩, fun _ y hy _ => ⟨y, hy, rfl, rfl⟩, ht⟩
    (fun hl => (h.cold hl).1) h.objs h.skipped

/-- **Every step at which the flags agree keeps the invariant.** -/
theorem step_inv (h : Inv k w) (hs : Served k w act) (ha : step k w act = some w') :
    Inv k w' := by
  cases act with
  | load acctInit acctHost =>
    simp only [step] at ha
    split_ifs at ha with hl
    obtain rfl := Option.some.inj ha
    exact load_inv h (by simpa using hl) hs
  | kernelCopy t =>
    simp only [step] at ha
    split_ifs at ha
    obtain rfl := Option.some.inj ha
    refine enterNew_inv h (by simp [Kernel.kernelNew]) nofun (fun _ => once_kernelNew) fun hr => ?_
    rcases hs with hsysv | hw
    · exact once_kernelNew hsysv
    · exact absurd (hr.symm.trans hw) nofun
  | create t acct rest =>
    simp only [step] at ha
    split_ifs at ha with hl
    obtain rfl := Option.some.inj ha
    rw [not_or, Bool.not_eq_true, Bool.not_eq_false'] at hl
    exact create_inv h hl.1
  | fork t =>
    obtain ⟨o, ho, rfl⟩ := Option.map_eq_some_iff.1 ha
    refine threads_inv h fun n hn => ?_
    rcases List.mem_append.1 hn with hn | hn
    · exact hn
    · rw [List.mem_singleton.1 hn]
      exact List.mem_of_getElem? ho
  | enter t n =>
    simp only [step] at ha
    split_ifs at ha with hg
    obtain rfl := Option.some.inj ha
    rw [not_or] at hg
    obtain ⟨x, hx⟩ := Option.ne_none_iff_exists'.1 (by simpa using hg.1)
    exact enter_inv h hx hg.2 hs
  | exitTask t =>
    obtain rfl := Option.some.inj ha
    exact threads_inv h fun n hn => List.mem_of_mem_eraseIdx hn
  | get t c =>
    simp only [step] at ha
    cases ho : w.tasks[t]? with
    | none => rw [ho] at ha; cases ha
    | some o =>
      rw [ho] at ha
      dsimp only at ha
      by_cases hr : w.rowsWired k = true
      · rw [if_pos hr] at ha
        cases hx : w.ns (o.getD k.host) with
        | none => rw [hx] at ha; cases ha
        | some x =>
          rw [hx] at ha
          obtain rfl := Option.some.inj ha
          exact get_inv h hx (.inr ⟨hr, rfl⟩)
      · rw [if_neg hr] at ha
        cases o with
        | none => cases ha
        | some n =>
          dsimp only at ha
          cases hx : w.ns n with
          | none => rw [hx] at ha; cases ha
          | some x =>
            rw [hx] at ha
            dsimp only at ha
            split_ifs at ha
            obtain rfl := Option.some.inj ha
            exact get_inv h hx (.inl rfl)
  | rmid n c i =>
    simp only [step] at ha
    cases hx : w.ns n with
    | none => rw [hx] at ha; cases ha
    | some x =>
      rw [hx] at ha
      dsimp only at ha
      split_ifs at ha
      obtain rfl := Option.some.inj ha
      exact rmid_inv h hx
  | free n =>
    simp only [step] at ha
    by_cases hg : n < w.next ∧ 2 ≤ n ∧ some n ∉ w.tasks
    · rw [if_pos hg] at ha
      obtain ⟨-, h2, hnot⟩ := hg
      cases hx : w.ns n with
      | none => rw [hx] at ha; cases ha
      | some x =>
        have he : x.origin.created = true → k.sysv = k.kernelOwned ∨ x.Empty := fun hc =>
          hs.imp_right fun he => he x hx hc
        rw [hx] at ha
        dsimp only at ha
        cases ho : x.origin with
        | own =>
          rw [ho] at ha he
          dsimp only at ha
          split_ifs at ha
          obtain rfl := Option.some.inj ha
          exact dsFree_inv h hx ho hnot (he rfl)
        | _ =>
          rw [ho] at ha
          obtain rfl := Option.some.inj ha
          exact kernelFree_inv h hx h2 hnot (by rw [ho]; nofun) fun hk => he (by rw [hk]; rfl)
    · rw [if_neg hg] at ha
      cases ha
  | exit last =>
    simp only [step] at ha
    split_ifs at ha with hl
    obtain rfl := Option.some.inj ha
    rw [not_or, Bool.not_eq_true, Bool.not_eq_false'] at hl
    exact exit_inv h hl.1 hs

/-! ## Runs -/

/-- The only namespace at first is the kernel's own. -/
theorem init_ns (hx : (World.init k).ns n = some x) : x = k.kernelNew .kernel := by
  simp only [World.init] at hx
  split_ifs at hx
  exact (Option.some.inj hx).symm

theorem init_inv (k : Kernel) : Inv k (World.init k) where
  fresh := by
    refine ⟨Nat.le_refl 2, fun n hn => if_neg fun h => ?_⟩
    rw [h.2] at hn
    exact absurd hn (Nat.not_succ_le_self 1)
  cold _ := by
    refine ⟨rfl, if_neg fun h => absurd h.2 (by decide), fun hs x hx c => ?_⟩
    obtain rfl := init_ns hx
    exact if_neg (Bool.eq_false_iff.1 hs)
  first := by
    refine ⟨fun hw => ⟨_, if_pos ⟨hw, rfl⟩⟩, fun n x hx _ => ?_⟩
    obtain rfl := init_ns hx
    rfl
  created n x hx hc := by
    obtain rfl := init_ns hx
    cases hc
  kernel hs n x hx _ := by
    obtain rfl := init_ns hx
    exact once_kernelNew hs
  static n x hx hc := by
    obtain rfl := init_ns hx
    cases hc
  host hl := by cases hl
  tasks n hn := by
    simp only [World.init, List.mem_singleton] at hn
    split_ifs at hn with hw
    obtain rfl := Option.some.inj hn
    exact ⟨_, if_pos ⟨hw, rfl⟩, fun hr => by cases hr⟩
  objs o ho := by cases ho
  skipped _ _ := ⟨rfl, rfl⟩

theorem Inv.agrees (h : Inv k w) : Agrees k w where
  initialised hr o ho := by
    cases o with
    | none => exact h.host (loaded_of_wired hr)
    | some n =>
      obtain ⟨x, hx, honce⟩ := h.tasks n ho
      exact ⟨x, hx, honce hr⟩
  released o ho hgone := by
    rcases h.objs o ho with hr | ⟨x, hx, -, -⟩
    · exact hr
    · rw [hgone] at hx
      cases hx
  untouched hs x hx := by
    rw [k.skipped_iff, Bool.and_eq_true] at hs
    rw [(h.skipped hs.1 hs.2).2] at hx
    cases hx

/-- **Wiring agrees with initialisation and teardown** in every run whose steps
    are such that the flags agree. -/
theorem wiring_agrees (k : Kernel) (w : World)
    (h : RunIf (step k) (Served k) (World.init k) w) : Agrees k w :=
  (h.inv (init_inv k) fun _ _ _ hi hs ha => step_inv hi hs ha).agrees

/-- A kernel with no ipc at all. -/
def bareKernel : Kernel := ⟨false, false, fun _ => false, false⟩

/-- A kernel with SysV and without namespaces. -/
def sysvKernel : Kernel := ⟨false, false, fun s => s = .ksysMsgget, true⟩

/-- A thread makes a queue in a namespace of its own and exits. -/
def queueRun : List Act :=
  [.load true true, .create 0 true true, .get 0 .msg, .exitTask 0, .free 2]

/-- Without SysV in the kernel the queue was released. -/
theorem wiring_agrees_bare : ∃ w, RunIf (step bareKernel) (Served bareKernel)
    (World.init bareKernel) w ∧ w.made = [⟨0, .msg, 2⟩] ∧ w.ns 2 = none ∧
      Agrees bareKernel w := by
  have h₀ : RunIf (step bareKernel) (Served bareKernel) (World.init bareKernel)
    (World.init bareKernel) := Relation.ReflTransGen.refl
  have hload := h₀.snoc (a := .load true true)
    (by exact ⟨.inr fun o ho => .inl (List.mem_singleton.1 ho), rfl⟩) rfl
  have hcreate := hload.snoc (a := .create 0 true true) (by exact trivial) rfl
  have hget := hcreate.snoc (a := .get 0 .msg) (by exact trivial) rfl
  have hexit := hget.snoc (a := .exitTask 0) (by exact trivial) rfl
  have hfree := hexit.snoc (a := .free 2) (by exact .inl rfl) rfl
  exact ⟨_, hfree, rfl, rfl, wiring_agrees _ _ hfree⟩

/-- With the SysV of the kernel and the namespaces of the module the queue is
    lost with its namespace. -/
theorem queue_lost : ¬∀ (k : Kernel) (w : World), Run (step k) (World.init k) w → Agrees k w := by
  intro h
  obtain ⟨w, hrun, hw⟩ := exec_check (step sysvKernel) (World.init sysvKernel) queueRun
    (fun w => decide (⟨0, .msg, 2⟩ ∈ w.made) && (w.ns 2).isNone && w.released.isEmpty) (by decide)
  rw [Bool.and_eq_true, Bool.and_eq_true, decide_eq_true_eq, Option.isNone_iff_eq_none,
    List.isEmpty_iff] at hw
  obtain ⟨⟨hmade, hgone⟩, hnone⟩ := hw
  have hmem := (h sysvKernel w hrun).released _ hmade hgone
  rw [hnone] at hmem
  cases hmem

end DroidLkm.Wiring
