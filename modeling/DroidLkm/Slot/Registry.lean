/-
  The registries, over one step.

  * `inHand`: the books while an ipc namespace is being made;
  * `ipcnsCreateModule_eq`, `ipcnsCreateKernel_eq`: the creations, each as one
    choice among its ends;
  * `Ok`: what holds of `droid_lkm_ipcns_list`, and with it `ipcnsPut_madeObj`
    on the put of a namespace just made;
  * `ops_keeps`, `calls_ok`: the creation of namespaces keeps it.
-/
import Mathlib.Tactic.SplitIfs
import Mathlib.Data.List.Pairwise
import DroidLkm.Slot.Books

namespace DroidLkm.Slot.Books

variable {b b' : Books} {i : Inputs} {flags : Flags} {n : ℕ} {err : ℤ}

/-! ## An ipc namespace in hand -/

/-- The accounts of messages with one for a namespace. -/
def acctWith (b : Books) (n : ℕ) : List ℕ := if n ∈ b.msgAcct then b.msgAcct else n :: b.msgAcct

/-- The books with an ipc namespace that is not registered. -/
def inHand (b : Books) (n : ℕ) (o : IpcObj) (acct : List ℕ) : Books :=
  { b with
    ipcNs := (n, o) :: b.ipcNs
    inums := o.inum :: b.inums
    msgAcct := acct }

/-- The parts of `mqInitNs` and of `ipcSysctlsSetup`, and their errors. -/
def mqParts (i : Inputs) : List Part :=
  if !i.mqueueReady || i.mqCreateMount != 0 then []
  else if i.mqSysctlReady && i.mqSysctls then [.mqSysctls, .mqMnt] else [.mqMnt]

def mqErr (i : Inputs) : ℤ :=
  if !i.mqueueReady then 0
  else if i.mqCreateMount ≠ 0 then i.mqCreateMount
  else if i.mqSysctlReady && !i.mqSysctls then -ENOMEM else 0

def sysctlParts (i : Inputs) : List Part :=
  if i.ipcSysctlsOk && i.ipcSysctls then [.ipcSysctls] else []

def sysctlErr (i : Inputs) : ℤ := if i.ipcSysctlsOk && !i.ipcSysctls then -ENOMEM else 0

variable {o : IpcObj} {acct : List ℕ} {inum : ℕ}

@[simp] theorem modifyParts_inHand (f : List Part → List Part) :
    (b.inHand n o acct).modifyParts n f = b.inHand n { o with parts := f o.parts } acct := by
  simp [modifyParts, modifyIpcNs, inHand]

theorem msgInitNs_inHand : (b.inHand n o b.msgAcct).msgInitNs i n =
    if !i.msgAcctAlloc then (b.inHand n o b.msgAcct, -ENOMEM)
    else (b.inHand n { o with parts := .msgIds :: o.parts } (b.acctWith n), 0) := by
  unfold msgInitNs acctWith
  by_cases hn : n ∈ b.msgAcct
  · simp [hn, inHand, modifyParts, modifyIpcNs]
  · simp [hn, inHand, modifyParts, modifyIpcNs]

theorem mqInitNs_inHand : (b.inHand n o acct).mqInitNs i n =
    (b.inHand n { o with parts := mqParts i ++ o.parts } acct, mqErr i) := by
  unfold mqInitNs mqParts mqErr
  cases i.mqueueReady <;> cases i.mqSysctlReady <;> cases i.mqSysctls <;>
    by_cases hm : i.mqCreateMount = 0 <;> simp [hm]

theorem ipcSysctlsSetup_inHand : (b.inHand n o acct).ipcSysctlsSetup i n =
    (b.inHand n { o with parts := sysctlParts i ++ o.parts } acct, sysctlErr i) := by
  unfold ipcSysctlsSetup sysctlParts sysctlErr
  cases i.ipcSysctlsOk <;> cases i.ipcSysctls <;> simp

theorem freeInumOf_inHand (hi : o.inum ≠ 0) :
    ((b.inHand n o acct).freeInumOf n).kfreeIpcNs n =
      { b with
        msgAcct := acct
        lost := o.parts.map (fun part => (n, part)) ++ b.lost } := by
  simp [freeInumOf, kfreeIpcNs, inHand, freeInum, hi]

/-- What hangs on a namespace in hand when `ds_free_ipc_ns` has taken it apart. -/
def leftOver (parts : List Part) : List Part :=
  (destroyIds (parts.erase .ipcSysctls)).erase .userRef

theorem dsFreeIpcNs_inHand (hi : o.inum ≠ 0) : (b.inHand n o acct).dsFreeIpcNs n =
    { b with
      msgAcct := acct
      lost := (leftOver o.parts).map (fun part => (n, part)) ++ b.lost } := by
  unfold dsFreeIpcNs ipcSysctlsRetire
  simp only [modifyParts_inHand]
  exact freeInumOf_inHand hi

/-- **`ds_free_ipc_ns` takes apart whatever the creation has put on.** -/
theorem leftOver_made (sysctls : Bool) : leftOver ((if sysctls then sysctlParts i else []) ++
    (mqParts i ++ [.shmIds, .semIds, .msgIds, .userRef])) = [] := by
  unfold sysctlParts mqParts
  cases sysctls <;> cases i.ipcSysctlsOk <;> cases i.ipcSysctls <;> cases i.mqueueReady <;>
    cases i.mqSysctlReady <;> cases i.mqSysctls <;> by_cases hm : i.mqCreateMount = 0 <;>
    simp [hm] <;> rfl

/-! ## The module's ipc namespaces -/

/-- A namespace of the module as it is registered. -/
def madeObj (i : Inputs) (inum : ℕ) : IpcObj :=
  ⟨1, inum, sysctlParts i ++ (mqParts i ++ [.shmIds, .semIds, .msgIds, .userRef])⟩

/-- **The creation, as one choice**: once the account is made it stays. -/
theorem ipcnsCreateModule_eq (b : Books) (i : Inputs) : b.ipcnsCreateModule i =
    match i.ipcAlloc b.ipcnsUsed with
    | none => (b, .error (-ENOMEM))
    | some n =>
      match i.ipcInum with
      | .error err => (b, .error err)
      | .ok inum =>
        if !i.msgAcctAlloc then (b, .error (-ENOMEM))
        else if mqErr i ≠ 0 then ({ b with msgAcct := b.acctWith n }, .error (mqErr i))
        else if sysctlErr i ≠ 0 then ({ b with msgAcct := b.acctWith n }, .error (sysctlErr i))
        else if !i.ipcEntry then ({ b with msgAcct := b.acctWith n }, .error (-ENOMEM))
        else ({ b.inHand n (madeObj i inum) (b.acctWith n) with
          ipcnsList := b.ipcnsList ++ [⟨n, false⟩] }, .ok n) := by
  unfold ipcnsCreateModule
  rcases i.ipcAlloc b.ipcnsUsed with _ | n
  · rfl
  rcases hinum : i.ipcInum with _ | inum
  · simp [kfreeIpcNs]
  have hne := i.ipcInum_ne inum hinum
  dsimp only
  have hstart : ({ b with ipcNs := (n, ⟨0, 0, []⟩) :: b.ipcNs }.allocInum inum).modifyIpcNs n
      (fun _ => ⟨1, inum, [.userRef]⟩) = b.inHand n ⟨1, inum, [.userRef]⟩ b.msgAcct := by
    simp [allocInum, modifyIpcNs, inHand]
  rw [hstart, msgInitNs_inHand]
  cases i.msgAcctAlloc with
  | false =>
    simp only [Bool.not_false, if_true, ne_eq, modifyParts_inHand]
    simp [kfreeIpcNs, inHand, freeInum, ENOMEM]
  | true =>
    simp only [Bool.not_true, Bool.false_eq_true, if_false, ne_eq, not_true_eq_false,
      modifyParts_inHand, mqInitNs_inHand, ipcSysctlsSetup_inHand]
    have hmq := leftOver_made (i := i) false
    have hsysctl := leftOver_made (i := i) true
    rw [dsFreeIpcNs_inHand hne, dsFreeIpcNs_inHand hne]
    dsimp only
    simp only [Bool.false_eq_true, if_false, if_true, List.nil_append] at hmq hsysctl
    rw [hmq, hsysctl]
    rfl

/-! ## The kernel's ipc namespaces -/

/-- What the module has put on a namespace of the kernel's by the time that
    its sysctls are set up; `put_ipc_ns` frees none of it. -/
def kernelParts (i : Inputs) : List Part :=
  if i.sysvModule then [.shmIds, .semIds, .msgIds] else []

/-- The accounts by then. -/
def kernelAcct (b : Books) (i : Inputs) (n : ℕ) : List ℕ :=
  if i.sysvModule then b.acctWith n else b.msgAcct

/-- The books when such a namespace has been put again. -/
def abandoned (b : Books) (i : Inputs) (n : ℕ) : Books :=
  { b with
    msgAcct := b.kernelAcct i n
    lost := (kernelParts i).map (fun part => (n, part)) ++ b.lost }

theorem putIpcNs_inHand (hr : o.refcount = 1) (hi : o.inum ≠ 0) :
    (b.inHand n o acct).putIpcNs n =
      { b with
        msgAcct := acct
        lost := (o.parts.erase .kernel).map (fun part => (n, part)) ++ b.lost } := by
  have hlookup : (b.inHand n o acct).ipcNs.lookup n = some o := by simp [inHand]
  unfold putIpcNs
  rw [hlookup]
  simp only [hr, ne_eq, not_true_eq_false, if_false, modifyParts_inHand]
  exact freeInumOf_inHand hi

/-- A namespace of the kernel's as it is registered. -/
def kernelObj (i : Inputs) (inum : ℕ) : IpcObj :=
  ⟨1, inum, sysctlParts i ++ (kernelParts i ++ [.kernel])⟩

theorem leftOver_kernel :
    ((kernelObj i inum).parts.erase .ipcSysctls).erase .kernel = kernelParts i := by
  unfold kernelObj kernelParts sysctlParts
  cases i.sysvModule <;> cases i.ipcSysctlsOk <;> cases i.ipcSysctls <;> rfl

theorem ipcnsCreateKernel_eq (b : Books) (i : Inputs) : b.ipcnsCreateKernel i =
    if !i.ipcSyms then (b, .error (-EOPNOTSUPP))
    else match i.copyIpcs b.ipcnsUsed with
      | .error err => (b, .error err)
      | .ok (n, inum) =>
        if i.sysvModule && !i.msgAcctAlloc then (b, .error (-ENOMEM))
        else if sysctlErr i ≠ 0 then (b.abandoned i n, .error (sysctlErr i))
        else if !i.ipcEntry then (b.abandoned i n, .error (-ENOMEM))
        else ({ b.inHand n (kernelObj i inum) (b.kernelAcct i n) with
          ipcnsList := b.ipcnsList ++ [⟨n, true⟩] }, .ok n) := by
  unfold ipcnsCreateKernel
  by_cases hsyms : (!i.ipcSyms) = true
  · rw [if_pos hsyms, if_pos hsyms]
  rw [if_neg hsyms, if_neg hsyms]
  rcases hcopy : i.copyIpcs b.ipcnsUsed with _ | ⟨n, inum⟩
  · rfl
  have hne := (i.copyIpcs_fresh _ _ _ hcopy).2
  dsimp only
  have hstart : { b.allocInum inum with ipcNs := (n, ⟨1, inum, [.kernel]⟩) :: b.ipcNs } =
      b.inHand n ⟨1, inum, [.kernel]⟩ b.msgAcct := rfl
  rw [hstart, msgInitNs_inHand]
  have hput : ((b.inHand n (kernelObj i inum) (b.kernelAcct i n)).ipcSysctlsRetire n).putIpcNs n =
      b.abandoned i n := by
    unfold ipcSysctlsRetire
    rw [modifyParts_inHand, putIpcNs_inHand rfl hne]
    show { b with
      msgAcct := b.kernelAcct i n
      lost := (((kernelObj i inum).parts.erase .ipcSysctls).erase .kernel).map _ ++ b.lost } = _
    rw [leftOver_kernel]
    rfl
  cases hsysv : i.sysvModule with
  | false =>
    have hobj : b.inHand n ⟨1, inum, sysctlParts i ++ [.kernel]⟩ b.msgAcct =
        b.inHand n (kernelObj i inum) (b.kernelAcct i n) := by
      simp [kernelObj, kernelParts, kernelAcct, hsysv]
    simp only [Bool.false_eq_true, if_false, ne_eq, not_true_eq_false, Bool.false_and,
      ipcSysctlsSetup_inHand]
    rw [hobj, hput]
    rfl
  | true =>
    have hobj : b.inHand n ⟨1, inum, sysctlParts i ++ .shmIds :: .semIds :: .msgIds :: [.kernel]⟩
        (b.acctWith n) = b.inHand n (kernelObj i inum) (b.kernelAcct i n) := by
      simp [kernelObj, kernelParts, kernelAcct, hsysv]
    cases i.msgAcctAlloc with
    | false =>
      simp only [if_true, Bool.not_false, Bool.true_and]
      rw [putIpcNs_inHand rfl hne]
      rfl
    | true =>
      simp only [Bool.not_true, Bool.false_eq_true, if_false, if_true, ne_eq, not_true_eq_false,
        Bool.true_and, modifyParts_inHand, ipcSysctlsSetup_inHand]
      rw [hobj, hput]
      rfl

theorem mqErr_eq_zero : mqErr i = 0 ↔ ¬ (i.mqueueReady = true ∧
    (i.mqCreateMount ≠ 0 ∨ (i.mqSysctlReady = true ∧ i.mqSysctls = false))) := by
  unfold mqErr
  cases i.mqueueReady <;> cases i.mqSysctlReady <;> cases i.mqSysctls <;>
    by_cases hm : i.mqCreateMount = 0 <;> simp [hm, ENOMEM]

theorem sysctlErr_eq_zero : sysctlErr i = 0 ↔ ¬ (i.ipcSysctlsOk = true ∧ i.ipcSysctls = false) := by
  unfold sysctlErr
  cases i.ipcSysctlsOk <;> cases i.ipcSysctls <;> simp [ENOMEM]

/-! ## What holds of the list -/

section
variable (b : Books) (i : Inputs)

/-- Two entries of one namespace are both of the kernel's, an entry of the
    module's is for a namespace that is allocated, as is that of the host. -/
structure Ok : Prop where
  once : b.ipcnsList.Pairwise fun x y => x.ns = y.ns → x.kernelOwned ∧ y.kernelOwned
  live : ∀ x ∈ b.ipcnsList, x.kernelOwned = false → x.ns ∈ b.ipcnsUsed
  kind : i.kernelOwned = false → ∀ x ∈ b.ipcnsList, x.kernelOwned = false
  host : i.host ∈ b.ipcnsUsed
  hostEntry : ∀ x ∈ b.ipcnsList, x.ns = i.host → x.kernelOwned = false

end

/-- An address that is not in use has no entry of the module's. -/
theorem Ok.kernelOwned_of_fresh (h : b.Ok i) (hn : n ∉ b.ipcnsUsed) {x : IpcEntry}
    (hx : x ∈ b.ipcnsList) (hxn : x.ns = n) : x.kernelOwned = true := by
  by_contra hk
  rw [Bool.not_eq_true] at hk
  exact hn (hxn ▸ h.live x hx hk)

/-- A namespace of the module's that nobody has used is freed; its account
    stays. -/
theorem ipcnsPut_madeObj (h : b.Ok i) (hk : i.kernelOwned = false) (hn : n ∉ b.ipcnsUsed)
    (hi : inum ≠ 0) :
    ({ b.inHand n (madeObj i inum) acct with
      ipcnsList := b.ipcnsList ++ [⟨n, false⟩] } : Books).ipcnsPut i (some n) =
    { b with msgAcct := acct } := by
  have hnot : ∀ x ∈ b.ipcnsList, x.ns ≠ n := by
    intro x hx hxn
    have htrue := h.kernelOwned_of_fresh hn hx hxn
    rw [h.kind hk x hx] at htrue
    cases htrue
  let entry : IpcEntry := ⟨n, false⟩
  have hfind : (b.ipcnsList ++ [entry]).find? (fun x => x.ns == n) = some entry := by
    rw [List.find?_append, List.find?_eq_none.mpr (by simpa using hnot)]
    simp [entry]
  have herase : (b.ipcnsList ++ [entry]).erase entry = b.ipcnsList := by
    rw [List.erase_append_right _ (fun hmem => hnot _ hmem rfl)]
    simp
  have hhost : n ≠ i.host := by
    rintro rfl
    exact hn h.host
  have hlookup : (b.inHand n (madeObj i inum) acct).ipcNs.lookup n = some (madeObj i inum) := by
    simp [inHand]
  have hleft := leftOver_made (i := i) true
  simp only [if_true] at hleft
  unfold ipcnsPut ipcnsPutModule ipcnsEntryOf
  dsimp only
  rw [hfind, hlookup]
  simp only [entry, Option.any_some, Bool.false_eq_true, if_false, hhost, listDel, madeObj, ne_eq,
    not_true_eq_false]
  show dsFreeIpcNs { b.inHand n (madeObj i inum) acct with
    ipcnsList := (b.ipcnsList ++ [entry]).erase entry } n = _
  rw [herase]
  show (b.inHand n (madeObj i inum) acct).dsFreeIpcNs n = _
  rw [dsFreeIpcNs_inHand hi]
  unfold madeObj
  dsimp only
  rw [hleft]
  rfl

/-- What taking an ipc namespace apart does not touch. -/
def lists (b : Books) : List ℕ × List (ℕ × ℕ) × List IpcEntry :=
  (b.pidnsList, b.nsproxies, b.ipcnsList)

@[simp] theorem lists_modifyParts (f : List Part → List Part) :
    (b.modifyParts n f).lists = b.lists := rfl

@[simp] theorem lists_modifyIpcNs (f : IpcObj → IpcObj) :
    (b.modifyIpcNs n f).lists = b.lists := rfl

@[simp] theorem lists_kfreeIpcNs : (b.kfreeIpcNs n).lists = b.lists := by
  unfold kfreeIpcNs
  split <;> rfl

@[simp] theorem lists_freeInumOf : (b.freeInumOf n).lists = b.lists := by
  unfold freeInumOf
  split
  · rfl
  · split <;> rfl

@[simp] theorem lists_dsFreeIpcNs : (b.dsFreeIpcNs n).lists = b.lists := by
  simp [dsFreeIpcNs, ipcSysctlsRetire]

@[simp] theorem lists_putIpcNs : (b.putIpcNs n).lists = b.lists := by
  unfold putIpcNs
  split
  · rfl
  · split <;> simp

/-- Putting an ipc namespace back leaves the pid namespaces and the proxies. -/
theorem ipcnsPut_lists (m : Option ℕ) : (b.ipcnsPut i m).pidnsList = b.pidnsList ∧
    (b.ipcnsPut i m).nsproxies = b.nsproxies := by
  have hmod (n : ℕ) : (b.ipcnsPutModule i n).lists.1 = b.lists.1 ∧
      (b.ipcnsPutModule i n).lists.2.1 = b.lists.2.1 := by
    unfold ipcnsPutModule
    split
    · exact ⟨rfl, rfl⟩
    · split_ifs
      · exact ⟨rfl, rfl⟩
      · exact ⟨rfl, rfl⟩
      · rw [lists_dsFreeIpcNs]
        cases b.ipcnsEntryOf n <;> exact ⟨rfl, rfl⟩
  cases m with
  | none => exact ⟨rfl, rfl⟩
  | some n =>
    unfold ipcnsPut
    dsimp only
    split_ifs
    · have hlists := lists_putIpcNs (b := b) (n := n)
      simp only [lists, Prod.mk.injEq] at hlists
      exact ⟨hlists.1, hlists.2.1⟩
    · exact ⟨rfl, rfl⟩
    · exact hmod n

theorem pidnsPut_lists (m : Option ℕ) : (b.pidnsPut m).lists = b.lists := by
  cases m with
  | none => rfl
  | some n =>
    unfold pidnsPut
    dsimp only
    split
    · rfl
    · split_ifs <;> rfl

/-- So does making one. -/
theorem ipcnsCreate_lists : (b.ipcnsCreate i).1.pidnsList = b.pidnsList ∧
    (b.ipcnsCreate i).1.nsproxies = b.nsproxies := by
  unfold ipcnsCreate
  split
  · rw [ipcnsCreateKernel_eq]
    split
    · exact ⟨rfl, rfl⟩
    · split
      · exact ⟨rfl, rfl⟩
      · split_ifs <;> exact ⟨rfl, rfl⟩
  · rw [ipcnsCreateModule_eq]
    split
    · exact ⟨rfl, rfl⟩
    · split
      · exact ⟨rfl, rfl⟩
      · split_ifs <;> exact ⟨rfl, rfl⟩

/-! ## The list stays in order -/

theorem Ok.congr (h : b.Ok i) (hlist : b'.ipcnsList = b.ipcnsList)
    (hused : b'.ipcnsUsed = b.ipcnsUsed) : b'.Ok i := by
  constructor
  · rw [hlist]
    exact h.once
  · rw [hlist, hused]
    exact h.live
  · rw [hlist]
    exact h.kind
  · rw [hused]
    exact h.host
  · rw [hlist]
    exact h.hostEntry

/-- A namespace that was not in use is registered. -/
theorem Ok.registered (h : b.Ok i) (hn : n ∉ b.ipcnsUsed) {owned : Bool}
    (howned : owned = i.kernelOwned) (hlist : b'.ipcnsList = b.ipcnsList ++ [⟨n, owned⟩])
    (hused : b'.ipcnsUsed = n :: b.ipcnsUsed) : b'.Ok i := by
  have hmem : ∀ x, x ∈ b'.ipcnsList ↔ x ∈ b.ipcnsList ∨ x = ⟨n, owned⟩ := by
    intro x
    rw [hlist, List.mem_append, List.mem_singleton]
  constructor
  · rw [hlist, List.pairwise_append]
    refine ⟨h.once, List.pairwise_singleton _ _, ?_⟩
    intro x hx y hy hxy
    rw [List.mem_singleton.mp hy] at hxy ⊢
    have hxo := h.kernelOwned_of_fresh hn hx hxy
    refine ⟨hxo, ?_⟩
    rw [howned]
    by_contra hk
    rw [h.kind (Bool.not_eq_true _ ▸ hk) x hx] at hxo
    cases hxo
  · intro x hx hxo
    rw [hused, List.mem_cons]
    rcases (hmem x).mp hx with hx | rfl
    · exact Or.inr (h.live x hx hxo)
    · exact Or.inl rfl
  · intro hk x hx
    rcases (hmem x).mp hx with hx | rfl
    · exact h.kind hk x hx
    · exact howned.trans hk
  · rw [hused]
    exact List.mem_cons_of_mem _ h.host
  · intro x hx hns
    rcases (hmem x).mp hx with hx | rfl
    · exact h.hostEntry x hx hns
    · exact absurd h.host (hns ▸ hn)

theorem ipcnsUsed_modifyKey (f : IpcObj → IpcObj) (l : List (ℕ × IpcObj)) :
    (modifyKey n f l).map (·.1) = l.map (·.1) := by
  induction l with
  | nil => rfl
  | cons x l ih =>
    unfold modifyKey
    split_ifs <;> simp [ih]

theorem mem_eraseKey {x : ℕ} {l : List (ℕ × IpcObj)} (hx : x ∈ l.map (·.1)) (hne : x ≠ n) :
    x ∈ (eraseKey n l).map (·.1) := by
  induction l with
  | nil => cases hx
  | cons y l ih =>
    unfold eraseKey
    rw [List.map_cons, List.mem_cons] at hx
    split_ifs with hy
    · rcases hx with rfl | hx
      · exact absurd hy hne
      · exact hx
    · rw [List.map_cons, List.mem_cons]
      exact hx.imp_right ih

@[simp] theorem ipcnsUsed_modifyIpcNs (f : IpcObj → IpcObj) :
    (b.modifyIpcNs n f).ipcnsUsed = b.ipcnsUsed := ipcnsUsed_modifyKey f _

@[simp] theorem ipcnsUsed_modifyParts (f : List Part → List Part) :
    (b.modifyParts n f).ipcnsUsed = b.ipcnsUsed := ipcnsUsed_modifyKey _ _

@[simp] theorem ipcnsUsed_freeInumOf : (b.freeInumOf n).ipcnsUsed = b.ipcnsUsed := by
  unfold freeInumOf
  split
  · rfl
  · split <;> rfl

theorem mem_kfreeIpcNs {m : ℕ} (hm : m ∈ b.ipcnsUsed) (hne : m ≠ n) :
    m ∈ (b.kfreeIpcNs n).ipcnsUsed := by
  unfold kfreeIpcNs
  split
  · exact hm
  · exact mem_eraseKey hm hne

theorem mem_dsFreeIpcNs {m : ℕ} (hm : m ∈ b.ipcnsUsed) (hne : m ≠ n) :
    m ∈ (b.dsFreeIpcNs n).ipcnsUsed :=
  mem_kfreeIpcNs (by simpa [ipcSysctlsRetire] using hm) hne

theorem mem_putIpcNs {m : ℕ} (hm : m ∈ b.ipcnsUsed) (hne : m ≠ n) :
    m ∈ (b.putIpcNs n).ipcnsUsed := by
  unfold putIpcNs
  split
  · exact hm
  · split
    · simpa using hm
    · exact mem_kfreeIpcNs (by simpa using hm) hne

/-- A namespace other than the host's is freed, and no entry of the module's
    for it is left. -/
theorem Ok.freed (h : b.Ok i) (hlist : b'.ipcnsList.Sublist b.ipcnsList)
    (hgone : ∀ x ∈ b'.ipcnsList, x.ns = n → x.kernelOwned = true)
    (hused : ∀ m ∈ b.ipcnsUsed, m ≠ n → m ∈ b'.ipcnsUsed) (hhost : n ≠ i.host) : b'.Ok i := by
  constructor
  · exact h.once.sublist hlist
  · intro x hx hxo
    refine hused _ (h.live x (hlist.subset hx) hxo) ?_
    intro hn
    rw [hgone x hx hn] at hxo
    cases hxo
  · intro hk x hx
    exact h.kind hk x (hlist.subset hx)
  · exact hused _ h.host (Ne.symm hhost)
  · intro x hx
    exact h.hostEntry x (hlist.subset hx)

/-- An entry of the module's is the only one of its namespace. -/
theorem erase_entry : ∀ {l : List IpcEntry} {entry : IpcEntry},
    l.Pairwise (fun x y => x.ns = y.ns → x.kernelOwned ∧ y.kernelOwned) → entry ∈ l →
    entry.kernelOwned = false → ∀ x ∈ l.erase entry, x.ns ≠ entry.ns := by
  intro l entry hl hentry howned
  induction l with
  | nil => cases hentry
  | cons y l ih =>
    rw [List.pairwise_cons] at hl
    intro x hx hns
    by_cases hy : y = entry
    · subst hy
      rw [List.erase_cons_head] at hx
      have howned' := (hl.1 x hx hns.symm).1
      rw [howned] at howned'
      cases howned'
    · rw [List.erase_cons_tail (by simpa using hy)] at hx
      have hentry' : entry ∈ l := (List.mem_cons.mp hentry).resolve_left (Ne.symm hy)
      rcases List.mem_cons.mp hx with rfl | hx
      · have howned' := (hl.1 entry hentry' hns).2
        rw [howned] at howned'
        cases howned'
      · exact ih hl.2 hentry' x hx hns

/-- Entries of one namespace are both of the kernel's or the same. -/
theorem Ok.owned_of_owned (h : b.Ok i) {x y : IpcEntry} (hx : x ∈ b.ipcnsList)
    (hxo : x.kernelOwned = true) (hy : y ∈ b.ipcnsList) (hns : y.ns = x.ns) :
    y.kernelOwned = true := by
  by_contra hyo
  refine erase_entry h.once hy (Bool.not_eq_true _ ▸ hyo) x ?_ hns.symm
  refine (List.mem_erase_of_ne ?_).mpr hx
  rintro rfl
  exact hyo hxo

/-- **A put keeps the list in order.** -/
theorem Ok.ipcnsPut (h : b.Ok i) (m : Option ℕ) : (b.ipcnsPut i m).Ok i := by
  cases m with
  | none => exact h
  | some n =>
    have hentry : ∀ x, b.ipcnsEntryOf n = some x → x ∈ b.ipcnsList ∧ x.ns = n := by
      intro x hx
      exact ⟨List.mem_of_find?_eq_some hx, by simpa using List.find?_some hx⟩
    have hmodify (f : IpcObj → IpcObj) : (b.modifyIpcNs n f).Ok i := h.congr rfl (by simp)
    unfold Books.ipcnsPut
    dsimp only
    by_cases howned : (b.ipcnsEntryOf n).any (·.kernelOwned) = true
    · rw [if_pos howned]
      rcases hx : b.ipcnsEntryOf n with _ | x
      · rw [hx] at howned
        cases howned
      rw [hx, Option.any_some] at howned
      obtain ⟨hmem, rfl⟩ := hentry x hx
      split_ifs
      · have hlists : (b.putIpcNs x.ns).ipcnsList = b.ipcnsList :=
          congrArg (fun l => l.2.2) lists_putIpcNs
        refine h.freed (n := x.ns) ?_ ?_ (fun m => mem_putIpcNs) ?_
        · simp only [hlists, List.Sublist.refl]
        · intro y hy hns
          rw [hlists] at hy
          exact h.owned_of_owned hmem howned hy hns
        · intro hhost
          rw [h.hostEntry x hmem hhost] at howned
          cases howned
      · exact h
    · rw [if_neg howned]
      unfold ipcnsPutModule
      split
      · exact h
      split_ifs with hr hhost
      · exact hmodify _
      · exact hmodify _
      have hused : ∀ m ∈ b.ipcnsUsed, m ≠ n →
          m ∈ ((b.listDel (b.ipcnsEntryOf n)).dsFreeIpcNs n).ipcnsUsed := by
        intro m hm hne
        refine mem_dsFreeIpcNs ?_ hne
        cases b.ipcnsEntryOf n <;> exact hm
      have hlists : ((b.listDel (b.ipcnsEntryOf n)).dsFreeIpcNs n).ipcnsList =
          (b.listDel (b.ipcnsEntryOf n)).ipcnsList := congrArg (fun l => l.2.2) lists_dsFreeIpcNs
      rcases hx : b.ipcnsEntryOf n with _ | x <;> rw [hx] at hlists hused
      · refine h.freed (n := n) ?_ ?_ hused hhost
        · rw [hlists]
          exact List.Sublist.refl _
        · intro y hy hns
          rw [hlists] at hy
          have hnone := List.find?_eq_none.mp hx y hy
          simp [hns] at hnone
      · obtain ⟨hmem, rfl⟩ := hentry x hx
        have howned' : x.kernelOwned = false := by simpa [hx] using howned
        refine h.freed (n := x.ns) ?_ ?_ hused hhost
        · rw [hlists]
          exact List.erase_sublist
        · intro y hy hns
          rw [hlists] at hy
          exact absurd hns (erase_entry h.once hmem howned' y hy)

/-- **And a creation.** -/
theorem Ok.ipcnsCreate (h : b.Ok i) : (b.ipcnsCreate i).1.Ok i := by
  unfold Books.ipcnsCreate
  cases hk : i.kernelOwned with
  | true =>
    rw [if_pos rfl, ipcnsCreateKernel_eq]
    split
    · exact h
    · rcases hcopy : i.copyIpcs b.ipcnsUsed with _ | ⟨n, inum⟩
      · exact h
      · dsimp only
        split_ifs
        · exact h
        · exact h.congr rfl rfl
        · exact h.congr rfl rfl
        · exact h.registered (i.copyIpcs_fresh _ _ _ hcopy).1 hk.symm rfl rfl
  | false =>
    rw [if_neg Bool.false_ne_true, ipcnsCreateModule_eq]
    rcases halloc : i.ipcAlloc b.ipcnsUsed with _ | n
    · exact h
    rcases i.ipcInum with _ | inum
    · exact h
    dsimp only
    split_ifs
    · exact h
    · exact h.congr rfl rfl
    · exact h.congr rfl rfl
    · exact h.congr rfl rfl
    · exact h.registered (i.ipcAlloc_fresh _ _ halloc) hk.symm rfl rfl

theorem Ok.pidnsCreate (h : b.Ok i) (parent : ℕ) : (b.pidnsCreate i parent).1.Ok i := by
  have hcache (c : Books) (level : ℕ) : (c.createPidCachep i level).1.ipcnsList = c.ipcnsList ∧
      (c.createPidCachep i level).1.ipcnsUsed = c.ipcnsUsed := by
    unfold createPidCachep
    split_ifs <;> exact ⟨rfl, rfl⟩
  unfold Books.pidnsCreate
  dsimp only
  split
  · exact h
  rcases i.pidAlloc with _ | n
  · exact h
  dsimp only
  have hc := hcache { b with pidNs := (n, ⟨0, 0, 0⟩) :: b.pidNs } (b.pidnsLevel parent + 1)
  rcases hr : createPidCachep { b with pidNs := (n, ⟨0, 0, 0⟩) :: b.pidNs } i
    (b.pidnsLevel parent + 1) with ⟨c, made⟩
  rw [hr] at hc
  cases made with
  | false => exact h.congr hc.1 hc.2
  | true =>
    rcases i.pidInum with _ | inum
    · exact h.congr hc.1 hc.2
    · dsimp only
      split
      · exact h.congr hc.1 hc.2
      · exact h.congr hc.1 hc.2

theorem Ok.pidnsPut (h : b.Ok i) (m : Option ℕ) : (b.pidnsPut m).Ok i := by
  cases m with
  | none => exact h
  | some n =>
    unfold Books.pidnsPut
    dsimp only
    split
    · exact h
    · split
      · exact h
      · exact h.congr rfl rfl

theorem Ok.createNewNamespaces (h : b.Ok i) (r : Except ℤ ℕ) :
    (b.createNewNamespaces r).1.Ok i := by
  cases r
  · exact h
  · exact h.congr rfl rfl

theorem Ok.nsproxyHold (h : b.Ok i) : (b.nsproxyHold i).Ok i := by
  unfold Books.nsproxyHold
  split
  · exact h
  · split
    · exact h.congr rfl (by simp [ipcnsGet])
    · exact h

theorem Ok.switchTask (h : b.Ok i) : (b.switchTask i).Ok i := by
  unfold Books.switchTask
  split
  · exact h
  split
  · exact h
  split
  · exact h.congr rfl rfl
  · next q _ _ _ _ _ =>
    have hfreed : ({ b with nsproxies := eraseKey q b.nsproxies } : Books).Ok i := h.congr rfl rfl
    dsimp only
    split
    · exact hfreed
    · split
      · exact hfreed.ipcnsPut _
      · exact hfreed

theorem baseOps_keeps (i : Inputs) : (baseOps i).Keeps (fun b => b.Ok i) := by
  constructor
  · intro b old h
    exact h.pidnsCreate old
  · intro b n h
    exact h.pidnsPut n
  · intro b h
    exact h.ipcnsCreate
  · intro b n h
    exact h.ipcnsPut n
  · intro b flags h
    exact h.createNewNamespaces _
  · intro b h
    exact h.createNewNamespaces _
  · intro b flags h
    exact h
  · intro b q h
    exact h.nsproxyHold
  · intro b q newPid newIpc h
    exact h
  · intro b h
    exact h.nsproxyHold
  · intro b q h
    exact h.switchTask
  · intro b newPid newIpc h
    show Ok (if newIpc.isSome then b else b.nsproxyHold i) i
    split
    · exact h
    · exact h.nsproxyHold

theorem Ok.copyNamespaces (h : b.Ok i) (flags : Flags) : (b.copyNamespaces i flags).1.Ok i := by
  unfold Books.copyNamespaces
  split_ifs
  · split
    · exact h
    · exact h.congr rfl rfl
  · exact h
  · exact h
  · have hentry : (b.createEntry i flags).1.Ok i := by
      unfold createEntry
      split
      · exact (baseOps_keeps i).cnnWrap h flags
      · exact h.createNewNamespaces _
    rcases hr : b.createEntry i flags with ⟨c, _ | q⟩ <;> rw [hr] at hentry <;> exact hentry

/-- **The creation of namespaces keeps the list in order, however it ends.** -/
theorem ops_keeps (i : Inputs) : (ops i).Keeps (fun b => b.Ok i) :=
  { baseOps_keeps i with cnOrig := fun _ flags h => h.copyNamespaces flags }

/-- Each of the three calls does. -/
theorem calls_ok (h : b.Ok i) (flags : Flags) :
    ((ops i).cnnWrap b flags).1.Ok i ∧ ((ops i).cnWrap b flags).1.Ok i ∧
      ((ops i).cloneCtxEnter b flags).1.Ok i :=
  ⟨(ops_keeps i).cnnWrap h flags, (ops_keeps i).cnWrap h flags,
    (ops_keeps i).cloneCtxEnter h flags⟩

end DroidLkm.Slot.Books
