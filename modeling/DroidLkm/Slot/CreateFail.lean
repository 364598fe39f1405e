/-
  What a creation that fails leaves behind.

  * `PidClean`, `IpcClean`, …: the failures that leave nothing;
  * `pidnsCreate_error`, `ipcnsCreate_error`: a creation that fails has left
    the books alone just in these;
  * `ipcnsCreate_put`, `putNew_eq_iff`: and one that is put back after it has
    succeeded;
  * `failed_creation`: the same for `droid_lkm_cnn_wrap`, `droid_lkm_cn_wrap`
    and `droid_lkm_clone_ctx_enter`.
-/
import Mathlib.Tactic.SplitIfs
import DroidLkm.Slot.Registry
import DroidLkm.Slot.Effects

namespace DroidLkm.Slot.Books

variable {b b' : Books} {i : Inputs} {flags : Flags} {n : ℕ} {err : ℤ}

/-! ## The conditions -/

section
variable (b : Books) (i : Inputs)

/-- The level of the new pid namespace. -/
def newLevel : ℕ := b.pidnsLevel i.pidNsForChildren + 1

/-- No pid namespace is made, and no cache for its pids either. -/
def PidClean : Prop :=
  i.nsproxy = none ∨ i.activePidNs ≠ i.pidNsForChildren ∨
    Kernel.MAX_PID_NS_LEVEL < b.newLevel i ∨ i.pidAlloc = none ∨
    (b.newLevel i ∉ b.pidCache ∧ i.pidCacheAlloc = false) ∨
    (b.newLevel i ∈ b.pidCache ∧ ((∃ err, i.pidInum = .error err) ∨ i.pidEntry = false))

/-- The kernel's ipc namespace is not made, or fails with nothing of the module
    on it. -/
def KernelClean : Prop :=
  i.ipcSyms = false ∨ (∃ err, i.copyIpcs b.ipcnsUsed = .error err) ∨
    if i.sysvModule then i.msgAcctAlloc = false
    else (i.ipcSysctlsOk = true ∧ i.ipcSysctls = false) ∨ i.ipcEntry = false

/-- The module's ipc namespace fails before its account of messages is made,
    or finds one at its address. -/
def ModuleClean : Prop :=
  i.ipcAlloc b.ipcnsUsed = none ∨ (∃ err, i.ipcInum = .error err) ∨ i.msgAcctAlloc = false ∨
    ∃ n ∈ b.msgAcct, i.ipcAlloc b.ipcnsUsed = some n

/-- The creation of the module's ipc namespace fails. -/
def ModuleFails : Prop :=
  i.ipcAlloc b.ipcnsUsed = none ∨ (∃ err, i.ipcInum = .error err) ∨ i.msgAcctAlloc = false ∨
    (i.mqueueReady = true ∧
      (i.mqCreateMount ≠ 0 ∨ (i.mqSysctlReady = true ∧ i.mqSysctls = false))) ∨
    (i.ipcSysctlsOk = true ∧ i.ipcSysctls = false) ∨ i.ipcEntry = false

def IpcClean : Prop := if i.kernelOwned then b.KernelClean i else b.ModuleClean i

/-- The namespaces that are asked for leave nothing when the call fails. -/
def NewClean (flags : Flags) : Prop :=
  if has flags CLONE_NEWPID then b.PidClean i
  else if has flags CLONE_NEWIPC then b.IpcClean i
  else True

/-- `droid_lkm_cnn_wrap` makes the namespaces only with the gate open. -/
def CnnClean (flags : Flags) : Prop := has flags OURS → i.gate → b.NewClean i flags

/-- No private nsproxy fails after the child has taken the nsproxy of its
    parent. -/
def PrivClean (flags : Flags) : Prop :=
  has flags CLONE_NEWPID ∨ i.kernelOwned ∨ b.ModuleFails i ∨ has (without flags OURS) NS_FLAGS ∨
    (i.nsproxy = none ∧ i.cnnHooked)

/-- `droid_lkm_cn_wrap` makes them itself, or hands its flags to the kernel,
    which asks for them in turn. -/
def CnClean (flags : Flags) : Prop :=
  if !has flags OURS then True
  else if !i.switchSym then
    (i.capable ∨ has flags CLONE_NEWUSER) → !ipcWithSysvsem flags → i.cnnHooked →
      b.CnnClean i flags
  else if !i.gate then True
  else if ipcWithSysvsem flags then True
  else b.NewClean i flags ∧ b.PrivClean i flags

/-- The nsproxy of the task is there. -/
def HasProxy : Prop := ∀ q, i.nsproxy = some q → ∃ count, (q, count) ∈ b.nsproxies

end

/-! ## Pid namespaces -/

theorem createPidCachep_eq (level : ℕ) : b.createPidCachep i level =
    if level ∈ b.pidCache then (b, true)
    else if !i.pidCacheAlloc then (b, false)
    else ({ b with pidCache := level :: b.pidCache }, true) := rfl

theorem list_ne_cons {α : Type} (x : α) (l : List α) : x :: l ≠ l := by
  intro h
  have hlen := congrArg List.length h
  simp at hlen

/-- What `droid_lkm_pidns_create` leaves when it fails. -/
theorem pidnsCreate_error (hn : i.nsproxy ≠ none) (ha : i.activePidNs = i.pidNsForChildren)
    (h : b.pidnsCreate i i.pidNsForChildren = (b', .error err)) : b' = b ↔ b.PidClean i := by
  unfold pidnsCreate at h
  dsimp only at h
  simp only [PidClean, hn, ha, newLevel, false_or, ne_eq, not_true_eq_false]
  by_cases hlevel : Kernel.MAX_PID_NS_LEVEL < b.pidnsLevel i.pidNsForChildren + 1
  · rw [if_pos hlevel] at h
    cases h
    simp [hlevel]
  rw [if_neg hlevel] at h
  simp only [hlevel, false_or]
  rcases halloc : i.pidAlloc with _ | n
  · simp only [halloc] at h
    cases h
    simp
  simp only [halloc, createPidCachep_eq, reduceCtorEq, false_or] at h ⊢
  by_cases hc : b.pidnsLevel i.pidNsForChildren + 1 ∈ b.pidCache
  · simp only [hc, not_true_eq_false, false_and, false_or, if_true, true_and] at h ⊢
    rcases hinum : i.pidInum with err' | inum
    · simp only [hinum, freePidNs, eraseKey_head] at h
      cases h
      simp
    · cases hentry : i.pidEntry <;>
        simp [hinum, hentry, freePidNs, freeInum, allocInum] at h
      obtain ⟨rfl, -⟩ := h
      simp
  · simp only [hc, if_false, not_false_eq_true, true_and, false_and, or_false] at h ⊢
    cases hcache : i.pidCacheAlloc with
    | false =>
      simp only [hcache, freePidNs] at h
      simp at h
      obtain ⟨rfl, -⟩ := h
      simp
    | true =>
      have grown : b'.pidCache = (b.pidnsLevel i.pidNsForChildren + 1) :: b.pidCache := by
        rcases hinum : i.pidInum with err' | inum
        · simp [hcache, hinum, freePidNs] at h
          rw [← h.1]
        · cases hentry : i.pidEntry <;>
            simp [hcache, hinum, hentry, freePidNs, freeInum, allocInum] at h
          rw [← h.1]
      refine iff_of_false ?_ (by simp)
      rintro rfl
      exact list_ne_cons _ _ grown.symm

/-- A pid namespace that is made is on the list, after those before it. -/
theorem pidnsCreate_ok (hn : i.nsproxy ≠ none) (ha : i.activePidNs = i.pidNsForChildren)
    (h : b.pidnsCreate i i.pidNsForChildren = (b', .ok n)) :
    b'.pidnsList = b.pidnsList ++ [n] ∧ ¬ b.PidClean i := by
  unfold pidnsCreate at h
  dsimp only at h
  simp only [PidClean, hn, ha, newLevel, false_or, ne_eq, not_true_eq_false]
  by_cases hlevel : Kernel.MAX_PID_NS_LEVEL < b.pidnsLevel i.pidNsForChildren + 1
  · rw [if_pos hlevel] at h
    cases h
  rw [if_neg hlevel] at h
  rcases halloc : i.pidAlloc with _ | m
  · simp [halloc] at h
  rcases hinum : i.pidInum with err' | inum
  · simp only [halloc, hinum] at h
    split at h <;> cases h
  simp only [halloc, hinum, createPidCachep_eq] at h
  by_cases hc : b.pidnsLevel i.pidNsForChildren + 1 ∈ b.pidCache
  · cases hentry : i.pidEntry <;> simp [hc, hentry, allocInum] at h
    obtain ⟨rfl, rfl⟩ := h
    simp [hlevel, hc]
  · cases hcache : i.pidCacheAlloc <;> cases hentry : i.pidEntry <;>
      simp [hc, hcache, hentry, allocInum] at h
    obtain ⟨rfl, rfl⟩ := h
    simp [hlevel, hc]

/-! ## Traces -/

theorem acctWith_eq_iff : { b with msgAcct := b.acctWith n } = b ↔ n ∈ b.msgAcct := by
  unfold acctWith
  constructor
  · intro h
    have hacct := congrArg Books.msgAcct h
    dsimp only at hacct
    by_contra hn
    rw [if_neg hn] at hacct
    exact list_ne_cons _ _ hacct
  · intro hn
    rw [if_pos hn]

theorem abandoned_eq_iff : b.abandoned i n = b ↔ i.sysvModule = false := by
  unfold abandoned kernelAcct kernelParts
  cases i.sysvModule with
  | false => simp
  | true =>
    refine iff_of_false ?_ (by simp)
    intro h
    have hlost := congrArg List.length (congrArg Books.lost h)
    simp only [if_true, List.length_append, List.length_map, List.length_cons] at hlost
    omega

theorem ipcnsCreateModule_error (h : b.ipcnsCreateModule i = (b', .error err)) :
    b' = b ↔ b.ModuleClean i := by
  rw [ipcnsCreateModule_eq] at h
  unfold ModuleClean
  rcases halloc : i.ipcAlloc b.ipcnsUsed with _ | n
  · simp only [halloc] at h
    cases h
    simp
  rcases hinum : i.ipcInum with err' | inum
  · simp only [halloc, hinum] at h
    cases h
    simp
  simp only [halloc, hinum] at h
  cases hacct : i.msgAcctAlloc with
  | false =>
    simp only [hacct] at h
    cases h
    simp
  | true =>
    simp only [hacct, Bool.not_true, Bool.false_eq_true, if_false] at h
    have hb : b' = { b with msgAcct := b.acctWith n } := by
      split_ifs at h <;> cases h <;> rfl
    rw [hb, acctWith_eq_iff]
    simp

theorem ipcnsCreateKernel_error (h : b.ipcnsCreateKernel i = (b', .error err)) :
    b' = b ↔ b.KernelClean i := by
  rw [ipcnsCreateKernel_eq] at h
  unfold KernelClean
  cases hsyms : i.ipcSyms with
  | false =>
    simp only [hsyms, Bool.not_false, if_true] at h
    cases h
    simp
  | true =>
  simp only [hsyms, Bool.not_true, Bool.false_eq_true, if_false] at h
  rcases hcopy : i.copyIpcs b.ipcnsUsed with err' | ⟨n, inum⟩
  · simp only [hcopy] at h
    cases h
    simp
  simp only [hcopy] at h
  by_cases hacct : (i.sysvModule && !i.msgAcctAlloc) = true
  · rw [if_pos hacct] at h
    cases h
    simp only [Bool.and_eq_true, Bool.not_eq_true'] at hacct
    simp [hacct]
  rw [if_neg hacct] at h
  have hb : b' = b.abandoned i n := by
    split_ifs at h <;> cases h <;> rfl
  have hfails : (i.ipcSysctlsOk = true ∧ i.ipcSysctls = false) ∨ i.ipcEntry = false := by
    unfold sysctlErr at h
    split_ifs at h <;> simp_all
  rw [hb, abandoned_eq_iff]
  cases hsysv : i.sysvModule with
  | false => simp [hfails]
  | true =>
    rw [hsysv] at hacct
    simpa using hacct

/-- **What a creation of an ipc namespace leaves when it fails.** -/
theorem ipcnsCreate_error (h : b.ipcnsCreate i = (b', .error err)) :
    b' = b ↔ b.IpcClean i := by
  unfold ipcnsCreate at h
  unfold IpcClean
  split_ifs at h ⊢
  · exact ipcnsCreateKernel_error h
  · exact ipcnsCreateModule_error h

/-! ## Putting back -/

/-- A creation that has not failed has come past every check. -/
theorem ipcnsCreateKernel_ok (h : b.ipcnsCreateKernel i = (b', .ok n)) :
    i.ipcSyms = true ∧ n ∉ b.ipcnsUsed ∧ b'.ipcnsList = b.ipcnsList ++ [⟨n, true⟩] ∧
      ¬ b.KernelClean i := by
  rw [ipcnsCreateKernel_eq] at h
  unfold KernelClean
  cases hsyms : i.ipcSyms with
  | false =>
    rw [hsyms] at h
    cases h
  | true =>
  rw [hsyms] at h
  rcases hcopy : i.copyIpcs b.ipcnsUsed with err' | ⟨m, inum⟩
  · rw [hcopy] at h
    cases h
  rw [hcopy] at h
  simp only [Bool.not_true, Bool.false_eq_true, if_false] at h
  by_cases hacct : (i.sysvModule && !i.msgAcctAlloc) = true
  · rw [if_pos hacct] at h
    cases h
  by_cases hsysctl : sysctlErr i = 0
  · cases hentry : i.ipcEntry with
    | false =>
      simp [hacct, hsysctl, hentry] at h
    | true =>
      rw [if_neg hacct, if_neg (not_not.mpr hsysctl), hentry] at h
      cases h
      refine ⟨rfl, (i.copyIpcs_fresh _ _ _ hcopy).1, rfl, ?_⟩
      rw [sysctlErr_eq_zero] at hsysctl
      cases hsysv : i.sysvModule with
      | false => simpa using hsysctl
      | true => simpa [hsysv] using hacct
  · rw [if_neg hacct, if_pos hsysctl] at h
    cases h

/-- A namespace of the kernel's stays on the list when it is put back. -/
theorem ipcnsCreateKernel_put (h : b.Ok i) (hr : b.ipcnsCreateKernel i = (b', .ok n)) :
    b'.ipcnsPut i (some n) ≠ b := by
  obtain ⟨hsyms, hn, hlist, -⟩ := ipcnsCreateKernel_ok hr
  have howned : (b'.ipcnsEntryOf n).any (·.kernelOwned) = true := by
    unfold ipcnsEntryOf
    rw [hlist]
    rcases hfind : (b.ipcnsList ++ [IpcEntry.mk n true]).find? (fun x => x.ns == n) with _ | x
    · simp at hfind
    · have hns : x.ns = n := by simpa using List.find?_some hfind
      rw [hfind, Option.any_some]
      rcases List.mem_append.mp (List.mem_of_find?_eq_some hfind) with hmem | hmem
      · exact h.kernelOwned_of_fresh hn hmem hns
      · rw [List.mem_singleton.mp hmem]
  intro hput
  unfold ipcnsPut at hput
  dsimp only at hput
  rw [if_pos howned, if_pos hsyms] at hput
  have hkept : (b'.putIpcNs n).ipcnsList = b'.ipcnsList :=
    congrArg (fun l => l.2.2) (lists_putIpcNs (b := b') (n := n))
  rw [hput, hlist] at hkept
  have hlen := congrArg List.length hkept
  rw [List.length_append] at hlen
  exact absurd hlen (by simp)

/-- The same of the module's; and nothing has failed. -/
theorem ipcnsCreateModule_put (h : b.Ok i) (hk : i.kernelOwned = false)
    (hr : b.ipcnsCreateModule i = (b', .ok n)) :
    (b'.ipcnsPut i (some n) = b ↔ b.ModuleClean i) ∧ ¬ b.ModuleFails i ∧
      b'.ipcnsList = b.ipcnsList ++ [⟨n, false⟩] := by
  rw [ipcnsCreateModule_eq] at hr
  rcases halloc : i.ipcAlloc b.ipcnsUsed with _ | m
  · rw [halloc] at hr
    cases hr
  rcases hinum : i.ipcInum with err' | inum
  · rw [halloc, hinum] at hr
    cases hr
  rw [halloc, hinum] at hr
  dsimp only at hr
  cases hacct : i.msgAcctAlloc with
  | false =>
    rw [hacct] at hr
    cases hr
  | true =>
  by_cases hmq : mqErr i = 0
  · by_cases hsysctl : sysctlErr i = 0
    · cases hentry : i.ipcEntry with
      | false => simp [hacct, hmq, hsysctl, hentry] at hr
      | true =>
        rw [hacct, if_neg (not_not.mpr hmq), if_neg (not_not.mpr hsysctl), hentry] at hr
        cases hr
        refine ⟨?_, ?_, rfl⟩
        · show ipcnsPut { b.inHand n (madeObj i inum) (b.acctWith n) with
            ipcnsList := b.ipcnsList ++ [⟨n, false⟩] } i (some n) = b ↔ _
          rw [ipcnsPut_madeObj h hk (i.ipcAlloc_fresh _ _ halloc) (i.ipcInum_ne _ hinum),
            acctWith_eq_iff]
          simp [ModuleClean, halloc, hinum, hacct]
        · rw [mqErr_eq_zero] at hmq
          rw [sysctlErr_eq_zero] at hsysctl
          simp [ModuleFails, halloc, hinum, hacct, hentry, hmq, hsysctl]
    · simp [hacct, hmq, hsysctl] at hr
  · simp [hacct, hmq] at hr

/-- **What a creation of an ipc namespace leaves when the namespace is put
    back.** -/
theorem ipcnsCreate_put (h : b.Ok i) (hr : b.ipcnsCreate i = (b', .ok n)) :
    b'.ipcnsPut i (some n) = b ↔ b.IpcClean i := by
  unfold ipcnsCreate at hr
  unfold IpcClean
  split_ifs at hr ⊢ with hk
  · exact iff_of_false (ipcnsCreateKernel_put h hr) (ipcnsCreateKernel_ok hr).2.2.2
  · exact (ipcnsCreateModule_put h (Bool.not_eq_true _ ▸ hk) hr).1

/-! ## Both namespaces -/

theorem newPidNs_error (h : (baseOps i).newPidNs b true = (b', .error err)) :
    b' = b ↔ b.PidClean i := by
  unfold CreateOps.newPidNs baseOps at h
  simp only [Bool.not_true, Bool.false_eq_true, if_false] at h
  by_cases hn : i.nsproxy = none
  · rw [if_pos hn] at h
    cases h
    simp [PidClean, hn]
  by_cases ha : i.activePidNs = i.pidNsForChildren
  · rw [if_neg hn, if_neg (not_not.mpr ha)] at h
    rcases hr : b.pidnsCreate i i.pidNsForChildren with ⟨b₁, err' | n⟩ <;>
      simp only [hr] at h <;> cases h
    exact pidnsCreate_error hn ha hr
  · rw [if_neg hn, if_pos ha] at h
    cases h
    simp [PidClean, ha]

theorem newPidNs_ok {m : Option ℕ} (h : (baseOps i).newPidNs b true = (b', .ok m)) :
    b.pidnsList.length < b'.pidnsList.length ∧ ¬ b.PidClean i := by
  unfold CreateOps.newPidNs baseOps at h
  simp only [Bool.not_true, Bool.false_eq_true, if_false] at h
  by_cases hn : i.nsproxy = none
  · rw [if_pos hn] at h
    cases h
  by_cases ha : i.activePidNs = i.pidNsForChildren
  · rw [if_neg hn, if_neg (not_not.mpr ha)] at h
    rcases hr : b.pidnsCreate i i.pidNsForChildren with ⟨b₁, err' | n⟩ <;>
      simp only [hr] at h <;> cases h
    obtain ⟨hlist, hclean⟩ := pidnsCreate_ok hn ha hr
    refine ⟨?_, hclean⟩
    rw [hlist, List.length_append]
    exact Nat.lt_succ_self _
  · rw [if_neg hn, if_pos ha] at h
    cases h

theorem newIpcNs_error (h : (baseOps i).newIpcNs b true = (b', .error err)) :
    b.ipcnsCreate i = (b', .error err) := by
  unfold CreateOps.newIpcNs baseOps at h
  rcases hr : b.ipcnsCreate i with ⟨b₁, err' | n⟩ <;> simp only [hr] at h <;> cases h
  rfl

theorem newIpcNs_ok {m : Option ℕ} (h : (baseOps i).newIpcNs b true = (b', .ok m)) :
    ∃ n, m = some n ∧ b.ipcnsCreate i = (b', .ok n) := by
  unfold CreateOps.newIpcNs baseOps at h
  rcases hr : b.ipcnsCreate i with ⟨b₁, err' | n⟩ <;> simp only [hr] at h <;> cases h
  exact ⟨n, rfl, rfl⟩

/-- Whether it is asked for or not, the ipc namespace leaves the pid
    namespaces and the proxies. -/
theorem newIpcNs_lists (want : Bool) :
    ((baseOps i).newIpcNs b want).1.pidnsList = b.pidnsList ∧
      ((baseOps i).newIpcNs b want).1.nsproxies = b.nsproxies := by
  have hlists := ipcnsCreate_lists (b := b) (i := i)
  unfold CreateOps.newIpcNs baseOps
  dsimp only
  cases want with
  | false => exact ⟨rfl, rfl⟩
  | true =>
    rcases hr : b.ipcnsCreate i with ⟨b₁, err' | n⟩ <;> rw [hr] at hlists <;> exact hlists

theorem newNamespaces_error (h : (baseOps i).newNamespaces b flags = (b', .error err)) :
    b' = b ↔ b.NewClean i flags := by
  unfold CreateOps.newNamespaces at h
  unfold NewClean
  cases hpid : has flags CLONE_NEWPID with
  | true =>
    rw [if_pos rfl]
    rw [hpid] at h
    rcases hr : (baseOps i).newPidNs b true with ⟨b₁, err' | newPid⟩
    · rw [hr] at h
      cases h
      exact newPidNs_error hr
    · obtain ⟨hlen, hclean⟩ := newPidNs_ok hr
      rw [hr] at h
      have hlists := newIpcNs_lists (b := b₁) (i := i) (has flags CLONE_NEWIPC)
      rcases hr' : (baseOps i).newIpcNs b₁ (has flags CLONE_NEWIPC) with ⟨b₂, err' | newIpc⟩
      · simp only [hr'] at h hlists
        cases h
        refine iff_of_false ?_ hclean
        intro hb
        have hput : (b₂.pidnsPut newPid).pidnsList = b₂.pidnsList :=
          congrArg (fun l => l.1) (pidnsPut_lists (b := b₂) newPid)
        rw [show b₂.pidnsPut newPid = b from hb, hlists.1] at hput
        rw [hput] at hlen
        exact Nat.lt_irrefl _ hlen
      · simp only [hr'] at h
        cases h
  | false =>
    rw [if_neg Bool.false_ne_true]
    rw [hpid] at h
    cases hipc : has flags CLONE_NEWIPC with
    | true =>
      rw [if_pos rfl]
      rw [hipc] at h
      have hnone : (baseOps i).newPidNs b false = (b, .ok none) := rfl
      rw [hnone] at h
      rcases hr : (baseOps i).newIpcNs b true with ⟨b₁, err' | newIpc⟩
      · simp only [hr] at h
        cases h
        exact ipcnsCreate_error (newIpcNs_error hr)
      · simp only [hr] at h
        cases h
    | false =>
      rw [hipc] at h
      cases h

/-- **What the two namespaces are when they have been made.** -/
theorem newNamespaces_ok {newPid newIpc : Option ℕ}
    (h : (baseOps i).newNamespaces b flags = (b', .ok (newPid, newIpc))) :
    (has flags CLONE_NEWPID = true ∧ b.pidnsList.length < b'.pidnsList.length ∧
        ¬ b.PidClean i) ∨
    (has flags CLONE_NEWPID = false ∧ has flags CLONE_NEWIPC = true ∧ newPid = none ∧
        ∃ n, newIpc = some n ∧ b.ipcnsCreate i = (b', .ok n)) ∨
    (has flags CLONE_NEWPID = false ∧ has flags CLONE_NEWIPC = false ∧ newPid = none ∧
        newIpc = none ∧ b' = b) := by
  unfold CreateOps.newNamespaces at h
  cases hpid : has flags CLONE_NEWPID with
  | true =>
    left
    rw [hpid] at h
    rcases hr : (baseOps i).newPidNs b true with ⟨b₁, err' | newPid'⟩
    · rw [hr] at h
      cases h
    · obtain ⟨hlen, hclean⟩ := newPidNs_ok hr
      rw [hr] at h
      have hlists := newIpcNs_lists (b := b₁) (i := i) (has flags CLONE_NEWIPC)
      rcases hr' : (baseOps i).newIpcNs b₁ (has flags CLONE_NEWIPC) with ⟨b₂, err' | newIpc'⟩
      · simp only [hr'] at h
        cases h
      · simp only [hr'] at h hlists
        cases h
        exact ⟨rfl, hlists.1 ▸ hlen, hclean⟩
  | false =>
    right
    rw [hpid] at h
    have hnone : (baseOps i).newPidNs b false = (b, .ok none) := rfl
    rw [hnone] at h
    cases hipc : has flags CLONE_NEWIPC with
    | true =>
      left
      rw [hipc] at h
      rcases hr : (baseOps i).newIpcNs b true with ⟨b₁, err' | newIpc'⟩
      · simp only [hr] at h
        cases h
      · simp only [hr] at h
        cases h
        exact ⟨rfl, rfl, rfl, newIpcNs_ok hr⟩
    | false =>
      right
      rw [hipc] at h
      cases h
      exact ⟨rfl, rfl, rfl, rfl, rfl⟩

/-- Putting both back leaves the proxies, and the list of pid namespaces. -/
theorem putNew_lists (newPid newIpc : Option ℕ) :
    ((baseOps i).putNew b newPid newIpc).pidnsList = b.pidnsList ∧
      ((baseOps i).putNew b newPid newIpc).nsproxies = b.nsproxies := by
  have hput := pidnsPut_lists (b := b) newPid
  simp only [lists, Prod.mk.injEq] at hput
  have hipc := ipcnsPut_lists (b := b.pidnsPut newPid) (i := i) newIpc
  exact ⟨hipc.1.trans hput.1, hipc.2.trans hput.2.1⟩

/-- **What they leave when they are put back.** -/
theorem putNew_eq_iff {newPid newIpc : Option ℕ} (hok : b.Ok i)
    (h : (baseOps i).newNamespaces b flags = (b', .ok (newPid, newIpc))) :
    (baseOps i).putNew b' newPid newIpc = b ↔ b.NewClean i flags := by
  unfold NewClean
  rcases newNamespaces_ok h with ⟨hpid, hlen, hclean⟩ | ⟨hpid, hipc, rfl, n, rfl, hr⟩ |
    ⟨hpid, hipc, rfl, rfl, rfl⟩
  · rw [if_pos hpid]
    refine iff_of_false ?_ hclean
    intro hput
    have hlist := (putNew_lists (b := b') (i := i) newPid newIpc).1
    rw [hput] at hlist
    rw [hlist] at hlen
    exact Nat.lt_irrefl _ hlen
  · rw [hpid, if_neg Bool.false_ne_true, if_pos hipc]
    exact ipcnsCreate_put hok hr
  · rw [hpid, hipc, if_neg Bool.false_ne_true, if_neg Bool.false_ne_true]
    exact iff_of_true rfl trivial

/-! ## The kernel's part -/

theorem createNewNamespaces_error {r : Except ℤ ℕ}
    (h : b.createNewNamespaces r = (b', .error err)) : b' = b := by
  cases r <;> cases h
  rfl

theorem cnnWrap_error (hok : b.Ok i) (h : (baseOps i).cnnWrap b flags = (b', .error err)) :
    b' = b ↔ b.CnnClean i flags := by
  unfold CreateOps.cnnWrap at h
  unfold CnnClean
  have hgate : (baseOps i).gateAllow = i.gate := rfl
  have hcnn (b : Books) (flags : Flags) :
    (baseOps i).cnnOrig b flags = b.createNewNamespaces i.cnn := rfl
  simp only [hgate, hcnn] at h
  by_cases hserved : (!has flags OURS || !i.gate) = true
  · rw [if_pos hserved] at h
    rcases hr : b.createNewNamespaces i.cnn with ⟨b₁, err' | q⟩ <;> simp only [hr] at h <;> cases h
    refine iff_of_true (createNewNamespaces_error hr) ?_
    intro hours hgate'
    simp [hours, hgate'] at hserved
  · rw [if_neg hserved] at h
    have hclean : (has flags OURS → i.gate → b.NewClean i flags) ↔ b.NewClean i flags := by
      simp only [Bool.or_eq_true, Bool.not_eq_true', not_or, Bool.not_eq_false] at hserved
      simp [hserved]
    rw [hclean]
    rcases hnew : (baseOps i).newNamespaces b flags with ⟨b₁, err' | ⟨newPid, newIpc⟩⟩
    · simp only [hnew] at h
      cases h
      exact newNamespaces_error hnew
    · simp only [hnew] at h
      rcases hr : b₁.createNewNamespaces i.cnn with ⟨b₂, err' | q⟩ <;> simp only [hr] at h <;> cases h
      rw [createNewNamespaces_error hr]
      exact putNew_eq_iff hok hnew

theorem cloneCtxEnter_error (hok : b.Ok i)
    (h : (baseOps i).cloneCtxEnter b flags = (b', .error err)) : b' = b ↔ b.NewClean i flags := by
  unfold CreateOps.cloneCtxEnter at h
  have hcnn (b : Books) : (baseOps i).cnnPriv b = b.createNewNamespaces i.cnnPriv := rfl
  simp only [hcnn] at h
  rcases hnew : (baseOps i).newNamespaces b flags with ⟨b₁, err' | ⟨newPid, newIpc⟩⟩
  · simp only [hnew] at h
    cases h
    exact newNamespaces_error hnew
  · simp only [hnew] at h
    rcases hr : b₁.createNewNamespaces i.cnnPriv with ⟨b₂, err' | q⟩ <;>
      simp only [hr] at h <;> cases h
    rw [createNewNamespaces_error hr]
    exact putNew_eq_iff hok hnew

/-- Where the wrap passes the call on nothing is left. -/
theorem cnnWrap_pass (hpass : has flags OURS = false ∨ i.gate = false)
    (h : (baseOps i).cnnWrap b flags = (b', .error err)) : b' = b ↔ True := by
  unfold CreateOps.cnnWrap at h
  have hgate : (baseOps i).gateAllow = i.gate := rfl
  have hcnn : (baseOps i).cnnOrig b flags = b.createNewNamespaces i.cnn := rfl
  have hserved : (!has flags OURS || !i.gate) = true := by
    rcases hpass with hp | hp <;> simp [hp]
  simp only [hgate, hcnn] at h
  rw [if_pos hserved] at h
  rcases hr : b.createNewNamespaces i.cnn with ⟨b₁, err' | q⟩ <;> simp only [hr] at h <;> cases h
  exact iff_of_true (createNewNamespaces_error hr) trivial

/-- The kernel's `copy_namespaces`, which asks the wrap for the namespaces. -/
theorem copyNamespaces_error {ret : ℤ} {clean : Prop}
    (hwrap : ∀ {b' err}, (baseOps i).cnnWrap b flags = (b', .error err) → (b' = b ↔ clean))
    (hret : ret ≠ 0) (h : b.copyNamespaces i flags = (b', ret)) : b' = b ↔
      ((i.capable ∨ has flags CLONE_NEWUSER) → !ipcWithSysvsem flags → i.cnnHooked → clean) := by
  unfold copyNamespaces createEntry at h
  by_cases hns : (!has flags KERNEL_NS) = true
  · rw [if_pos hns] at h
    split at h <;> cases h <;> exact absurd rfl hret
  rw [if_neg hns] at h
  by_cases hcap : (!i.capable && !has flags CLONE_NEWUSER) = true
  · rw [if_pos hcap] at h
    cases h
    simp only [Bool.and_eq_true, Bool.not_eq_true'] at hcap
    simp [hcap]
  rw [if_neg hcap] at h
  by_cases hipc : ipcWithSysvsem flags = true
  · rw [if_pos hipc] at h
    cases h
    simp [hipc]
  rw [if_neg hipc] at h
  have hcap' : i.capable = true ∨ has flags CLONE_NEWUSER = true := by
    simp only [Bool.and_eq_true, Bool.not_eq_true', not_and, Bool.not_eq_false] at hcap
    cases hc : i.capable with
    | true => exact Or.inl rfl
    | false => exact Or.inr (hcap hc)
  cases hhook : i.cnnHooked with
  | true =>
    rw [hhook, if_pos rfl] at h
    rcases hr : (baseOps i).cnnWrap b flags with ⟨b₁, err' | q⟩
    · rw [hr] at h
      cases h
      rw [hwrap hr]
      simp [hcap', hipc]
    · rw [hr] at h
      cases h
      exact absurd rfl hret
  | false =>
    rw [hhook, if_neg Bool.false_ne_true] at h
    have hcnn : (baseOps i).cnnOrig b flags = b.createNewNamespaces i.cnn := rfl
    rw [hcnn] at h
    rcases hr : b.createNewNamespaces i.cnn with ⟨b₁, err' | q⟩
    · rw [hr] at h
      cases h
      simp [createNewNamespaces_error hr]
    · rw [hr] at h
      cases h
      exact absurd rfl hret

/-! ## The private nsproxy of `droid_lkm_cn_wrap` -/

/-- The child shares the nsproxy of its parent. -/
theorem copyNamespaces_shared (hns : has flags KERNEL_NS = false) :
    b.copyNamespaces i flags = (match i.nsproxy with
      | none => b
      | some q => { b with nsproxies := modifyKey q (· + 1) b.nsproxies }, 0) := by
  unfold copyNamespaces
  rw [hns]
  cases i.nsproxy <;> rfl

theorem modifyKey_succ_ne {q : ℕ} : ∀ {l : List (ℕ × ℕ)}, (∃ c, (q, c) ∈ l) →
    modifyKey q (· + 1) l ≠ l := by
  intro l
  induction l with
  | nil =>
    rintro ⟨c, hc⟩
    cases hc
  | cons x l ih =>
    obtain ⟨m, c⟩ := x
    rintro ⟨c', hc'⟩
    unfold modifyKey
    split_ifs with hm
    · simp
    · intro h
      rcases List.mem_cons.mp hc' with heq | hmem
      · exact hm (congrArg Prod.fst heq).symm
      · exact ih ⟨c', hmem⟩ (List.cons.inj h).2

/-- A module's namespace is not made for one of the reasons. -/
theorem ipcnsCreateModule_fails (h : b.ipcnsCreateModule i = (b', .error err)) :
    b.ModuleFails i := by
  rw [ipcnsCreateModule_eq] at h
  unfold ModuleFails
  rcases halloc : i.ipcAlloc b.ipcnsUsed with _ | m
  · simp
  rcases hinum : i.ipcInum with err' | inum
  · simp
  by_contra hfail
  simp only [reduceCtorEq, exists_false, false_or, not_or] at hfail
  obtain ⟨hacct, hmq, hsysctl, hentry⟩ := hfail
  rw [Bool.not_eq_false] at hacct hentry
  simp only [halloc, hinum, hacct, Bool.not_true, Bool.false_eq_true, if_false,
    mqErr_eq_zero.mpr hmq, sysctlErr_eq_zero.mpr hsysctl, ne_eq, not_true_eq_false, hentry] at h
  cases h

/-- When the namespaces themselves fail no private nsproxy is asked for. -/
theorem newNamespaces_priv (hours : has flags OURS = true)
    (h : (baseOps i).newNamespaces b flags = (b', .error err)) : b.PrivClean i flags := by
  unfold PrivClean
  by_contra hpriv
  simp only [not_or] at hpriv
  obtain ⟨hpid, hk, hfails, -⟩ := hpriv
  rw [Bool.not_eq_true] at hpid hk
  rw [has_ours, hpid, Bool.false_or] at hours
  unfold CreateOps.newNamespaces at h
  have hnone : (baseOps i).newPidNs b false = (b, .ok none) := rfl
  rw [hpid, hours, hnone] at h
  rcases hr : (baseOps i).newIpcNs b true with ⟨b₁, err' | newIpc⟩
  · have hcreate := newIpcNs_error hr
    rw [ipcnsCreate, hk, if_neg Bool.false_ne_true] at hcreate
    exact hfails (ipcnsCreateModule_fails hcreate)
  · simp only [hr] at h
    cases h

/-- An ipc namespace that has been made is on the list; one that leaves nothing
    is the module's, and nothing has failed. -/
theorem ipcnsCreate_made (hok : b.Ok i) (h : b.ipcnsCreate i = (b', .ok n)) :
    (b.IpcClean i → i.kernelOwned = false ∧ ¬ b.ModuleFails i) ∧
      b'.ipcnsList = b.ipcnsList ++ [⟨n, i.kernelOwned⟩] := by
  unfold ipcnsCreate at h
  unfold IpcClean
  cases hk : i.kernelOwned with
  | true =>
    rw [hk, if_pos rfl] at h
    obtain ⟨-, -, hlist, hclean⟩ := ipcnsCreateKernel_ok h
    exact ⟨fun h => absurd h hclean, hlist⟩
  | false =>
    rw [hk, if_neg Bool.false_ne_true] at h
    obtain ⟨-, hfails, hlist⟩ := ipcnsCreateModule_put hok hk h
    exact ⟨fun _ => ⟨rfl, hfails⟩, hlist⟩

/-- **What a private nsproxy that fails leaves.** -/
theorem cnPriv_error {b₁ : Books} {newPid newIpc : Option ℕ} {ret : ℤ} (hok : b.Ok i)
    (hproxy : b.HasProxy i)
    (hours : has flags OURS = true)
    (hnew : (baseOps i).newNamespaces b flags = (b₁, .ok (newPid, newIpc)))
    (hns : has (without flags OURS) NS_FLAGS = false) (hret : ret ≠ 0)
    (h : (ops i).cnPriv (b₁.copyNamespaces i (without flags OURS)).1 (without flags OURS)
      newPid newIpc = (b', ret)) :
    b' = b ↔ b.NewClean i flags ∧ b.PrivClean i flags := by
  rw [copyNamespaces_shared (without_kernel_ns.trans hns)] at h
  -- what is put back, if anything is
  have hb' : ∃ b₂ : Books, b₂ = (match i.nsproxy with
      | none => b₁
      | some q => { b₁ with nsproxies := modifyKey q (· + 1) b₁.nsproxies }) ∧
      if i.cnnHooked then b' = (baseOps i).putNew b₂ newPid newIpc else b' = b₂ := by
    refine ⟨_, rfl, ?_⟩
    unfold CreateOps.cnPriv at h
    have hhook (b : Books) : (ops i).cnnHooked b = i.cnnHooked := rfl
    have hpriv (b : Books) : (ops i).cnnPriv b = b.createNewNamespaces i.cnnPriv := rfl
    simp only [hns, hhook, hpriv, Bool.false_eq_true, if_false] at h
    cases hc : i.cnnHooked with
    | false =>
      rw [hc] at h
      cases h
      rfl
    | true =>
      rw [hc, Bool.not_true, if_neg Bool.false_ne_true] at h
      cases hr : i.cnnPriv with
      | error err' =>
        rw [hr] at h
        cases h
        rfl
      | ok q =>
        rw [hr] at h
        cases h
        exact absurd rfl hret
  obtain ⟨b₂, hb₂, hb'⟩ := hb'
  have hpids : b'.pidnsList = b₁.pidnsList := by
    have hb₂' : b₂.pidnsList = b₁.pidnsList := by
      rw [hb₂]
      cases i.nsproxy <;> rfl
    split_ifs at hb'
    · rw [hb', (putNew_lists newPid newIpc).1, hb₂']
    · rw [hb', hb₂']
  have hproxies : b'.nsproxies = b₂.nsproxies := by
    split_ifs at hb'
    · rw [hb', (putNew_lists newPid newIpc).2]
    · rw [hb']
  rcases newNamespaces_ok hnew with ⟨hpid, hlen, hclean⟩ | ⟨hpid, hipc, rfl, n, rfl, hr⟩ |
    ⟨hpid, hipc, -, -, -⟩
  · refine iff_of_false ?_ (fun h => hclean (by simpa [NewClean, hpid] using h.1))
    rintro rfl
    rw [hpids] at hlen
    exact Nat.lt_irrefl _ hlen
  · obtain ⟨hmade, hlist⟩ := ipcnsCreate_made hok hr
    have hnclean : b.NewClean i flags ↔ b.IpcClean i := by simp [NewClean, hpid, hipc]
    have hpriv : b.IpcClean i → (b.PrivClean i flags ↔ i.nsproxy = none ∧ i.cnnHooked = true) := by
      intro hclean
      simp [PrivClean, hpid, hns, hmade hclean]
    cases hq : i.nsproxy with
    | some q =>
      refine iff_of_false ?_ ?_
      · rintro rfl
        rw [hq] at hb₂
        rw [hb₂] at hproxies
        have hsame := (ipcnsCreate_lists (b := b') (i := i)).2
        rw [hr] at hsame
        rw [show b₁.nsproxies = b'.nsproxies from hsame] at hproxies
        exact modifyKey_succ_ne (hproxy q hq) hproxies.symm
      · rintro ⟨hclean, hp⟩
        rw [hpriv (hnclean.mp hclean), hq] at hp
        cases hp.1
    | none =>
      rw [hq] at hb₂
      subst hb₂
      cases hc : i.cnnHooked with
      | true =>
        rw [hc, if_pos rfl] at hb'
        rw [hb', putNew_eq_iff hok hnew, hnclean]
        refine ⟨fun hclean => ⟨hclean, ?_⟩, fun h => h.1⟩
        rw [hpriv hclean]
        exact ⟨hq, hc⟩
      | false =>
        rw [hc, if_neg Bool.false_ne_true] at hb'
        refine iff_of_false ?_ ?_
        · rintro rfl
          rw [hb'] at hlist
          have hlen := congrArg List.length hlist
          simp at hlen
        · rintro ⟨hclean, hp⟩
          rw [hpriv (hnclean.mp hclean), hc] at hp
          cases hp.2
  · rw [has_ours, hpid, hipc] at hours
    cases hours

/-- **What `droid_lkm_cn_wrap` leaves when it fails.** -/
theorem cnWrap_error {ret : ℤ} (hok : b.Ok i) (hproxy : b.HasProxy i) (hret : ret ≠ 0)
    (h : (ops i).cnWrap b flags = (b', ret)) : b' = b ↔ b.CnClean i flags := by
  unfold CreateOps.cnWrap at h
  unfold CnClean
  have hcopy (b : Books) (flags : Flags) :
    (ops i).cnOrig b flags = b.copyNamespaces i flags := rfl
  have hgate : (ops i).gateAllow = i.gate := rfl
  have hswitch (b : Books) : (ops i).switchSym b = i.switchSym := rfl
  simp only [hcopy, hgate, hswitch] at h
  have hpass : ∀ {b₁ : Books} {r : ℤ}, (if r = 0 then (ops i).holdOf b₁ else b₁, r) = (b', ret) →
      (b₁, r) = (b', ret) := by
    intro b₁ r hr
    cases hr
    rw [if_neg hret]
  cases hours : has flags OURS with
  | false =>
    simp only [hours, Bool.not_false, if_true, iff_true] at h ⊢
    exact (copyNamespaces_error (cnnWrap_pass (Or.inl hours)) hret (hpass h)).mpr (by simp)
  | true =>
  simp only [hours, Bool.not_true, Bool.false_eq_true, if_false] at h ⊢
  cases hsym : i.switchSym with
  | false =>
    simp only [hsym, Bool.not_false, if_true] at h ⊢
    exact copyNamespaces_error (cnnWrap_error hok) hret h
  | true =>
  simp only [hsym, Bool.not_true, Bool.false_eq_true, if_false] at h ⊢
  cases hg : i.gate with
  | false =>
    simp only [hg, Bool.not_false, if_true, iff_true] at h ⊢
    exact (copyNamespaces_error (cnnWrap_pass (Or.inr hg)) hret (hpass h)).mpr (by simp)
  | true =>
  simp only [hg, Bool.not_true, Bool.false_eq_true, if_false] at h ⊢
  by_cases hipc : ipcWithSysvsem flags = true
  · rw [if_pos hipc] at h ⊢
    rw [copyNamespaces_error (cnnWrap_error hok) hret h]
    simp [hipc]
  rw [if_neg hipc] at h ⊢
  have hnew' : (ops i).newNamespaces b flags = (baseOps i).newNamespaces b flags := rfl
  rw [hnew'] at h
  rcases hnew : (baseOps i).newNamespaces b flags with ⟨b₁, err' | ⟨newPid, newIpc⟩⟩
  · simp only [hnew] at h
    cases h
    rw [newNamespaces_error hnew]
    exact (and_iff_left (newNamespaces_priv hours hnew)).symm
  simp only [hnew] at h
  by_cases hcn : (b₁.copyNamespaces i (without flags OURS)).2 = 0
  · rw [if_neg (not_not.mpr hcn)] at h
    cases hns : has (without flags OURS) NS_FLAGS with
    | true =>
      simp only [CreateOps.cnPriv, hns, if_true, ne_eq, not_true_eq_false, if_false] at h
      cases h
      exact absurd rfl hret
    | false =>
      by_cases hp : ((ops i).cnPriv (b₁.copyNamespaces i (without flags OURS)).1
          (without flags OURS) newPid newIpc).2 = 0
      · rw [if_neg (not_not.mpr hp)] at h
        cases h
        exact absurd rfl hret
      · rw [if_pos hp] at h
        exact cnPriv_error hok hproxy hours hnew hns hret h
  · rw [if_pos hcn] at h
    cases h
    have hb₁ : (b₁.copyNamespaces i (without flags OURS)).1 = b₁ :=
      (copyNamespaces_error (cnnWrap_pass (Or.inl without_ours)) hcn rfl).mpr (by simp)
    have hns : has (without flags OURS) NS_FLAGS = true := by
      by_contra hns
      rw [Bool.not_eq_true, ← without_kernel_ns] at hns
      rw [copyNamespaces_shared hns] at hcn
      exact hcn rfl
    rw [hb₁]
    have hput : (ops i).putNew b₁ newPid newIpc = b ↔ b.NewClean i flags := putNew_eq_iff hok hnew
    rw [hput]
    exact (and_iff_left (by simp [PrivClean, hns])).symm

/-! ## The three functions -/

/-- **A creation that fails leaves no trace exactly where the conditions hold.**

    A pid namespace that has been made stays whatever fails later, for
    `droid_lkm_pidns_put` does not drop the last reference; the account of an
    ipc namespace stays, for nobody calls `droid_lkm_msg_acct_exit`; an ipc
    namespace of the kernel's stays on the list.  However a call ends, the list
    is in order again. -/
theorem failed_creation (b : Books) (i : Inputs) (flags : Flags) (hok : b.Ok i)
    (hproxy : b.HasProxy i) :
    (∀ b' err, (ops i).cnnWrap b flags = (b', .error err) →
      (b' = b ↔ b.CnnClean i flags)) ∧
    (∀ b' ret, (ops i).cnWrap b flags = (b', ret) → ret ≠ 0 →
      (b' = b ↔ b.CnClean i flags)) ∧
    (∀ b' err, (ops i).cloneCtxEnter b flags = (b', .error err) →
      (b' = b ↔ b.NewClean i flags)) ∧
    (((ops i).cnnWrap b flags).1.Ok i ∧ ((ops i).cnWrap b flags).1.Ok i ∧
      ((ops i).cloneCtxEnter b flags).1.Ok i) := by
  refine ⟨?_, ?_, ?_, calls_ok hok flags⟩
  · intro b' err h
    exact cnnWrap_error hok h
  · intro b' ret h hret
    exact cnWrap_error hok hproxy hret h
  · intro b' err h
    exact cloneCtxEnter_error hok h

/-- A machine on which every allocation succeeds, of the module's own
    namespaces; the kernel's `create_new_namespaces` fails. -/
def noNsproxy : Inputs where
  gate := true
  capable := true
  switchSym := true
  cnnHooked := true
  releaseHooked := true
  nsproxy := some 1
  pidNsForChildren := 0
  oldIpcNs := some 0
  activePidNs := 0
  pidAlloc := some 2
  pidCacheAlloc := true
  pidInum := .ok 3
  pidEntry := true
  kernelOwned := false
  ipcSyms := true
  sysvModule := true
  host := 0
  copyIpcs := fun _ => .error (-ENOSPC)
  ipcAlloc := fun used => if 5 ∈ used then none else some 5
  ipcInum := .ok 4
  msgAcctAlloc := true
  mqueueReady := true
  mqCreateMount := 0
  mqSysctlReady := true
  mqSysctls := true
  ipcSysctlsOk := true
  ipcSysctls := true
  ipcEntry := true
  cnn := .error (-ENOMEM)
  cnnPriv := .error (-ENOMEM)
  ipcAlloc_fresh := by
    intro used n hn
    split_ifs at hn with hused
    cases hn
    exact hused
  copyIpcs_fresh := by
    rintro used n inum h
    cases h
  ipcInum_ne := by
    rintro n h
    cases h
    exact Nat.succ_ne_zero _

/-- And one that has no inode number left. -/
def noInum : Inputs := { noNsproxy with
  ipcInum := .error (-ENOSPC)
  ipcInum_ne := by
    rintro n h
    cases h }

/-- The books after the module has been loaded: the namespace of the host. -/
def boot : Books where
  pidNs := []
  pidnsList := []
  pidCache := []
  ipcNs := [(0, ⟨1, 1, [.userRef, .msgIds, .semIds, .shmIds]⟩)]
  ipcnsList := [⟨0, false⟩]
  msgAcct := [0]
  inums := [1]
  nsproxies := [(1, 1)]
  lost := []

theorem boot_ok (i : Inputs) (hhost : i.host = 0) : boot.Ok i := by
  constructor
  · exact List.pairwise_singleton _ _
  · intro x hx _
    rw [List.mem_singleton.mp hx]
    exact List.mem_cons_self
  · intro _ x hx
    rw [List.mem_singleton.mp hx]
  · rw [hhost]
    exact List.mem_cons_self
  · intro x hx _
    rw [List.mem_singleton.mp hx]

theorem boot_hasProxy (i : Inputs) (hq : i.nsproxy = some 1) : boot.HasProxy i := by
  intro q hq'
  rw [hq] at hq'
  cases hq'
  exact ⟨1, List.mem_cons_self⟩

/-- A call that finds no inode number leaves the books as they were. -/
theorem failed_creation_noInum : ((ops noInum).cnnWrap boot CLONE_NEWIPC).1 = boot :=
  ((failed_creation boot noInum CLONE_NEWIPC (boot_ok noInum rfl)
    (boot_hasProxy noInum rfl)).1 _ _ rfl).mpr fun _ _ => Or.inr (Or.inl ⟨_, rfl⟩)

/-- When `create_new_namespaces` fails the new pid namespace stays on the list
    with its inode number, and the account of the new ipc namespace stays. -/
theorem failed_creation_traces : boot.Ok noNsproxy ∧ boot.HasProxy noNsproxy ∧
    (∃ b', (ops noNsproxy).cnnWrap boot CLONE_NEWPID = (b', .error (-ENOMEM)) ∧
      b'.pidnsList ≠ boot.pidnsList ∧ b'.inums ≠ boot.inums) ∧
    (∃ b', (ops noNsproxy).cnnWrap boot CLONE_NEWIPC = (b', .error (-ENOMEM)) ∧
      b'.msgAcct ≠ boot.msgAcct) := by
  refine ⟨boot_ok _ rfl, boot_hasProxy _ rfl, ⟨_, rfl, ?_, ?_⟩, ⟨_, rfl, ?_⟩⟩
  · exact List.cons_ne_nil 2 []
  · exact list_ne_cons 3 [1]
  · exact list_ne_cons 5 [0]

end DroidLkm.Slot.Books
