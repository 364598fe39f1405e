/-
  The records of message accounting.

  `msg_init_ns` makes a record for the address of its namespace; the function
  that would remove one, `droid_lkm_msg_acct_exit`, has no caller.

  * `HasIds`: the table of messages of a live namespace has been initialised;
  * `RecordsOk`: the records are those of the live namespaces;
  * `Keeps`: the steps that need no record removed;
  * `records_follow`: in runs of such steps the records are right.
-/
import DroidLkm.Slot.CreateFail
import DroidLkm.Slot.Lifetimes

namespace DroidLkm.Slot

open Machine

/-! ## Lookups -/

section
variable {α : Type} {n m : ℕ} {x : α} {f : α → α}

theorem lookup_cons_ite (l : List (ℕ × α)) :
    ((n, x) :: l).lookup m = if m = n then some x else l.lookup m := by
  by_cases h : m = n
  · subst h
    rw [List.lookup_cons_self, if_pos rfl]
  · rw [List.lookup_cons, beq_eq_false_iff_ne.2 h, if_neg h]

theorem lookup_modifyKey (l : List (ℕ × α)) :
    (modifyKey n f l).lookup m = if m = n then (l.lookup m).map f else l.lookup m := by
  induction l with
  | nil => simp [modifyKey]
  | cons p l ih =>
    obtain ⟨q, y⟩ := p
    unfold modifyKey
    by_cases hq : q = n
    · subst hq
      rw [if_pos rfl, lookup_cons_ite, lookup_cons_ite]
      by_cases hm : m = q
      · simp [hm]
      · simp [hm]
    · rw [if_neg hq, lookup_cons_ite, lookup_cons_ite, ih]
      by_cases hm : m = q
      · have hmn : m ≠ n := fun h => hq (hm.symm.trans h)
        simp [hm, hq]
      · simp [hm]

theorem lookup_none {l : List (ℕ × α)} (h : n ∉ l.map (·.1)) : l.lookup n = none := by
  induction l with
  | nil => rfl
  | cons p l ih =>
    obtain ⟨q, y⟩ := p
    rw [List.map_cons, List.mem_cons, not_or] at h
    rw [lookup_cons_ite, if_neg h.1, ih h.2]

theorem lookup_ne_none {l : List (ℕ × α)} (h : n ∈ l.map (·.1)) : l.lookup n ≠ none := by
  intro hnone
  rw [List.lookup_eq_none_iff] at hnone
  obtain ⟨p, hp, hpn⟩ := List.mem_map.1 h
  have := hnone p hp
  simp [hpn] at this

theorem lookup_eraseKey {l : List (ℕ × α)} (hl : (l.map (·.1)).Nodup) :
    (eraseKey n l).lookup m = if m = n then none else l.lookup m := by
  induction l with
  | nil => simp [eraseKey]
  | cons p l ih =>
    obtain ⟨q, y⟩ := p
    rw [List.map_cons, List.nodup_cons] at hl
    unfold eraseKey
    by_cases hq : q = n
    · subst hq
      rw [if_pos rfl]
      by_cases hm : m = q
      · rw [if_pos hm, hm, lookup_none hl.1]
      · rw [if_neg hm, lookup_cons_ite, if_neg hm]
    · rw [if_neg hq, lookup_cons_ite, lookup_cons_ite, ih hl.2]
      by_cases hm : m = q
      · have hmn : m ≠ n := fun h => hq (hm.symm.trans h)
        simp [hm, hq]
      · simp [hm]

theorem eraseKey_sublist (n : ℕ) (l : List (ℕ × α)) : (eraseKey n l).Sublist l := by
  induction l with
  | nil => exact List.Sublist.refl _
  | cons p l ih =>
    obtain ⟨q, y⟩ := p
    unfold eraseKey
    split
    · exact List.sublist_cons_self _ _
    · exact ih.cons_cons _

end

namespace Books

variable {b b' : Books} {i : Inputs} {k : Boot} {n m : ℕ}

/-- The namespace is live, and its table of messages initialised. -/
def HasIds (b : Books) (n : ℕ) : Prop := ∃ o, b.ipcNs.lookup n = some o ∧ .msgIds ∈ o.parts

/-- What the records are about is as it was. -/
structure SameIds (b b' : Books) : Prop where
  acct : b'.msgAcct = b.msgAcct
  used : b'.ipcnsUsed = b.ipcnsUsed
  ids : ∀ n, b'.HasIds n ↔ b.HasIds n

/-- A namespace is no longer there, and nothing else has changed. -/
structure Gone (b b' : Books) (n : ℕ) : Prop where
  acct : b'.msgAcct = b.msgAcct
  nodup : b'.ipcnsUsed.Nodup
  look : ∀ m, b'.ipcNs.lookup m = if m = n then none else b.ipcNs.lookup m

theorem SameIds.refl (b : Books) : SameIds b b := ⟨rfl, rfl, fun _ => Iff.rfl⟩

theorem SameIds.trans {b₁ b₂ : Books} (h : SameIds b b₁) (h' : SameIds b₁ b₂) : SameIds b b₂ :=
  ⟨h'.acct.trans h.acct, h'.used.trans h.used, fun n => (h'.ids n).trans (h.ids n)⟩

/-- An object is changed, but not whether it has its table. -/
theorem sameIds_modify {f : IpcObj → IpcObj} (hf : ∀ o, .msgIds ∈ (f o).parts ↔ .msgIds ∈ o.parts)
    (n : ℕ) : SameIds b (b.modifyIpcNs n f) := by
  refine ⟨rfl, ipcnsUsed_modifyKey f b.ipcNs, ?_⟩
  intro m
  unfold HasIds modifyIpcNs
  dsimp only
  rw [lookup_modifyKey]
  by_cases hm : m = n
  · rw [if_pos hm]
    simp only [Option.map_eq_some_iff]
    constructor
    · rintro ⟨o, ⟨o', ho', rfl⟩, h⟩
      exact ⟨o', ho', (hf o').1 h⟩
    · rintro ⟨o, ho, h⟩
      exact ⟨f o, ⟨o, ho, rfl⟩, (hf o).2 h⟩
  · rw [if_neg hm]

theorem sameIds_parts {f : List Part → List Part} (hf : ∀ l, .msgIds ∈ f l ↔ .msgIds ∈ l)
    (n : ℕ) : SameIds b (b.modifyParts n f) :=
  sameIds_modify (fun o => hf o.parts) n

theorem gone_kfree (hb : b.ipcnsUsed.Nodup) (n : ℕ) : Gone b (b.kfreeIpcNs n) n := by
  unfold kfreeIpcNs
  split
  · next ho =>
    refine ⟨rfl, hb, ?_⟩
    intro m
    split
    · next hm => rw [hm, ho]
    · rfl
  · refine ⟨rfl, hb.sublist ((eraseKey_sublist n b.ipcNs).map _), ?_⟩
    intro m
    exact lookup_eraseKey hb

/-- What is done to a namespace before it is freed does not matter. -/
theorem Gone.before (h : Gone b b' n) {b₀ : Books} (ha : b.msgAcct = b₀.msgAcct)
    (hl : ∀ m, m ≠ n → b.ipcNs.lookup m = b₀.ipcNs.lookup m) : Gone b₀ b' n := by
  refine ⟨h.acct.trans ha, h.nodup, ?_⟩
  intro m
  rw [h.look]
  split
  · rfl
  · next hm => exact hl m hm

theorem lookup_modifyParts (f : List Part → List Part) (hm : m ≠ n) :
    (b.modifyParts n f).ipcNs.lookup m = b.ipcNs.lookup m := by
  unfold modifyParts modifyIpcNs
  dsimp only
  rw [lookup_modifyKey, if_neg hm]

theorem freeInumOf_ipcNs (n : ℕ) : (b.freeInumOf n).ipcNs = b.ipcNs ∧
    (b.freeInumOf n).msgAcct = b.msgAcct := by
  unfold freeInumOf
  split
  · exact ⟨rfl, rfl⟩
  · split <;> exact ⟨rfl, rfl⟩

theorem gone_dsFree (hb : b.ipcnsUsed.Nodup) (n : ℕ) : Gone b (b.dsFreeIpcNs n) n := by
  unfold dsFreeIpcNs ipcSysctlsRetire
  dsimp only
  refine (gone_kfree (by simpa using hb) n).before ?_ ?_
  · rw [(freeInumOf_ipcNs n).2]
    rfl
  · intro m hm
    rw [(freeInumOf_ipcNs n).1, lookup_modifyParts _ hm, lookup_modifyParts _ hm,
      lookup_modifyParts _ hm]

/-- `put_ipc_ns` drops a reference, or frees. -/
theorem putIpcNs_cases (hb : b.ipcnsUsed.Nodup) (n : ℕ) : SameIds b (b.putIpcNs n) ∨
    (∃ o, b.ipcNs.lookup n = some o ∧ o.refcount = 1) ∧ Gone b (b.putIpcNs n) n := by
  unfold putIpcNs
  split
  · exact Or.inl (SameIds.refl b)
  next o ho =>
  split
  · refine Or.inl (sameIds_modify ?_ n)
    exact fun _ => Iff.rfl
  · next hr =>
    refine Or.inr ⟨⟨o, ho, not_not.1 hr⟩, ?_⟩
    refine (gone_kfree (by simpa using hb) n).before ?_ ?_
    · rw [(freeInumOf_ipcNs n).2]
      rfl
    · intro m hm
      rw [(freeInumOf_ipcNs n).1, lookup_modifyParts _ hm]

/-- `droid_lkm_ipcns_put` likewise; the host is kept. -/
theorem ipcnsPut_cases (hb : b.ipcnsUsed.Nodup) (hkeep : ∀ x ∈ b.ipcnsList, x.ns = i.host →
    x.kernelOwned = false) (n : ℕ) : SameIds b (b.ipcnsPut i (some n)) ∨
    (n ≠ i.host ∧ ∃ o, b.ipcNs.lookup n = some o ∧ o.refcount = 1) ∧
      Gone b (b.ipcnsPut i (some n)) n := by
  unfold ipcnsPut
  dsimp only
  split
  · next howned =>
    have hne : n ≠ i.host := by
      rintro rfl
      obtain ⟨x, hx, hxo⟩ := Option.any_eq_true .. |>.1 howned
      have hmem := List.mem_of_find?_eq_some hx
      have hns := List.find?_some hx
      rw [hkeep x hmem (by simpa using hns)] at hxo
      cases hxo
    split
    · rcases putIpcNs_cases hb n with h | ⟨h, hg⟩
      · exact Or.inl h
      · exact Or.inr ⟨⟨hne, h⟩, hg⟩
    · exact Or.inl (SameIds.refl b)
  · unfold ipcnsPutModule
    split
    · exact Or.inl (SameIds.refl b)
    next o ho =>
    split
    · refine Or.inl (sameIds_modify ?_ n)
      exact fun _ => Iff.rfl
    next hr =>
    split
    · refine Or.inl (sameIds_modify ?_ n)
      exact fun _ => Iff.rfl
    next hne =>
    refine Or.inr ⟨⟨hne, o, ho, not_not.1 hr⟩, ?_⟩
    have hdel : (b.listDel (b.ipcnsEntryOf n)).ipcNs = b.ipcNs ∧
        (b.listDel (b.ipcnsEntryOf n)).msgAcct = b.msgAcct := by
      unfold listDel
      split <;> exact ⟨rfl, rfl⟩
    have hused : (b.listDel (b.ipcnsEntryOf n)).ipcnsUsed.Nodup := by
      rw [ipcnsUsed, hdel.1]
      exact hb
    refine (gone_dsFree hused n).before hdel.2 ?_
    intro m _
    rw [hdel.1]

/-! ## The records -/

/-- The namespace is live and `msg_init_ns` was run on it; the load does not look
    at its result. -/
def RanOn (k : Boot) (b : Books) (n : ℕ) : Prop :=
  ∃ o, b.ipcNs.lookup n = some o ∧ (.msgIds ∈ o.parts ∨ n ∈ k.booted)

end Books

/-- The table of records is exact, and empty when the module has gone. -/
structure RecordsOk (k : Boot) (s : Life) : Prop where
  once : s.books.msgAcct.Nodup
  exact : s.up = true → ∀ n, n ∈ s.books.msgAcct ↔ s.books.RanOn k n
  empty : s.exited = true → s.books.msgAcct = []

namespace Life

open Books

variable {k : Boot} {s s' : Life} {act : Act} {i : Inputs} {n : ℕ}

/-- The last reference on a namespace with a record. -/
def LastOf (b : Books) (n : ℕ) : Prop :=
  ∃ o, b.ipcNs.lookup n = some o ∧ o.refcount = 1 ∧ .msgIds ∈ o.parts

/-- A creation that fails when its record has been made. -/
def FailsLate (b : Books) (i : Inputs) : Prop :=
  if i.kernelOwned then i.ipcSyms = true ∧ i.sysvModule = true ∧ i.msgAcctAlloc = true ∧
    (∃ x, i.copyIpcs b.ipcnsUsed = .ok x) ∧ (sysctlErr i ≠ 0 ∨ i.ipcEntry = false)
  else (∃ n, i.ipcAlloc b.ipcnsUsed = some n) ∧ (∃ inum, i.ipcInum = .ok inum) ∧
    i.msgAcctAlloc = true ∧ (mqErr i ≠ 0 ∨ sysctlErr i ≠ 0 ∨ i.ipcEntry = false)

/-- The steps that need no record removed. -/
def Keeps (k : Boot) (s : Life) : Act → Prop
  | .load _ acctInit acctHost =>
    acctInit = true ∧ (k.kernelOwned = true → k.sysvModule = true → acctHost = true)
  | .create i => ¬FailsLate s.books i
  | .put _ n => n = k.host ∨ ¬LastOf s.books n
  | .kernelPut n => ¬LastOf s.books n
  | .exit _ _ => s.books.msgAcct = []
  | _ => True

/-- What holds in runs of such steps. -/
structure Inv (k : Boot) (s : Life) : Prop where
  used : s.books.ipcnsUsed.Nodup
  once : s.books.msgAcct.Nodup
  host : k.kernelOwned = true ∨ s.loaded = true → k.host ∈ s.books.ipcnsUsed
  hostEntry : ∀ x ∈ s.books.ipcnsList, x.ns = k.host → x.kernelOwned = false
  ids : ∀ n, n ∈ s.books.msgAcct ↔ s.books.HasIds n
  booted : s.loaded = true → ∀ n ∈ k.booted, s.books.HasIds n
  cold : s.loaded = false → s.books.ipcnsList = []
  up : s.exited = false

theorem Inv.same (h : Inv k s) (hs : SameIds s.books s'.books)
    (hlist : s'.books.ipcnsList.Sublist s.books.ipcnsList) (hl : s'.loaded = s.loaded)
    (he : s'.exited = s.exited) : Inv k s' := by
  refine ⟨hs.used ▸ h.used, hs.acct ▸ h.once, ?_, ?_, ?_, ?_, ?_, he ▸ h.up⟩
  · rw [hs.used, hl]
    exact h.host
  · intro x hx
    exact h.hostEntry x (hlist.subset hx)
  · intro n
    rw [hs.acct, hs.ids]
    exact h.ids n
  · intro hload n hn
    rw [hs.ids]
    exact h.booted (hl ▸ hload) n hn
  · intro hload
    rw [h.cold (hl ▸ hload)] at hlist
    exact List.sublist_nil.1 hlist

/-- A namespace without a record is freed. -/
theorem Inv.gone (h : Inv k s) (hg : Gone s.books s'.books n) (hn : ¬s.books.HasIds n)
    (hhost : n ≠ k.host) (hlist : s'.books.ipcnsList.Sublist s.books.ipcnsList)
    (hl : s'.loaded = s.loaded) (he : s'.exited = s.exited) : Inv k s' := by
  have hids : ∀ m, s'.books.HasIds m ↔ s.books.HasIds m := by
    intro m
    unfold HasIds
    rw [hg.look]
    split
    · next hm =>
      subst hm
      refine iff_of_false ?_ hn
      rintro ⟨o, ho, -⟩
      cases ho
    · exact Iff.rfl
  refine ⟨hg.nodup, hg.acct ▸ h.once, ?_, ?_, ?_, ?_, ?_, he ▸ h.up⟩
  · intro hload
    have hmem := h.host (hl ▸ hload)
    by_contra hnot
    have hnone := lookup_none hnot
    rw [hg.look, if_neg hhost.symm] at hnone
    exact lookup_ne_none hmem hnone
  · intro x hx
    exact h.hostEntry x (hlist.subset hx)
  · intro m
    rw [hg.acct, hids]
    exact h.ids m
  · intro hload m hm
    rw [hids]
    exact h.booted (hl ▸ hload) m hm
  · intro hload
    rw [h.cold (hl ▸ hload)] at hlist
    exact List.sublist_nil.1 hlist

/-- A namespace is registered, with a record if it has a table. -/
theorem Inv.register (h : Inv k s) {o : IpcObj} {acct : List ℕ} {entry : IpcEntry}
    (hn : n ∉ s.books.ipcnsUsed) (hentry : entry.ns = n) (hup : s.loaded = true)
    (hacct : .msgIds ∈ o.parts ∧ acct = n :: s.books.msgAcct ∨
      .msgIds ∉ o.parts ∧ acct = s.books.msgAcct) :
    Inv k { s with books := { s.books.inHand n o acct with
      ipcnsList := s.books.ipcnsList ++ [entry] } } := by
  have hhost := h.host (Or.inr hup)
  have hnone := lookup_none hn
  have hno : ¬s.books.HasIds n := by
    rintro ⟨o', ho', -⟩
    rw [hnone] at ho'
    cases ho'
  have hlook : ∀ m, ((n, o) :: s.books.ipcNs).lookup m =
      if m = n then some o else s.books.ipcNs.lookup m := fun m => lookup_cons_ite _
  have hids : ∀ m, m ≠ n → ((∃ o', ((n, o) :: s.books.ipcNs).lookup m = some o' ∧
      .msgIds ∈ o'.parts) ↔ s.books.HasIds m) := by
    intro m hm
    rw [hlook, if_neg hm]
    exact Iff.rfl
  refine ⟨List.nodup_cons.2 ⟨hn, h.used⟩, ?_, ?_, ?_, ?_, ?_, ?_, h.up⟩
  · show acct.Nodup
    rcases hacct with ⟨-, rfl⟩ | ⟨-, rfl⟩
    · exact List.nodup_cons.2 ⟨fun hm => hno ((h.ids n).1 hm), h.once⟩
    · exact h.once
  · intro _
    exact List.mem_cons_of_mem _ hhost
  · intro x hx hxh
    rcases List.mem_append.1 hx with hx | hx
    · exact h.hostEntry x hx hxh
    · rw [List.mem_singleton.1 hx, hentry] at hxh
      exact absurd (hxh ▸ hhost) hn
  · intro m
    show m ∈ acct ↔ ∃ o', ((n, o) :: s.books.ipcNs).lookup m = some o' ∧ .msgIds ∈ o'.parts
    by_cases hm : m = n
    · subst hm
      rw [hlook, if_pos rfl]
      rcases hacct with ⟨hp, rfl⟩ | ⟨hp, rfl⟩
      · exact iff_of_true List.mem_cons_self ⟨o, rfl, hp⟩
      · refine iff_of_false (fun hmem => hno ((h.ids m).1 hmem)) ?_
        rintro ⟨o', ho', hp'⟩
        cases ho'
        exact hp hp'
    · rw [hids m hm, ← h.ids m]
      rcases hacct with ⟨-, rfl⟩ | ⟨-, rfl⟩
      · rw [List.mem_cons, or_iff_right hm]
      · exact Iff.rfl
  · intro _ m hm
    have hold := h.booted hup m hm
    have hne : m ≠ n := by
      rintro rfl
      exact hno hold
    exact (hids m hne).2 hold
  · intro hload
    rw [hup] at hload
    cases hload

/-- The kernel makes a namespace, without a table of the module's. -/
theorem Inv.kernelMade (h : Inv k s) {o : IpcObj} (inums : List ℕ)
    (hn : n ∉ s.books.ipcnsUsed) (ho : .msgIds ∉ o.parts) :
    Inv k { s with books := { s.books with
      ipcNs := (n, o) :: s.books.ipcNs, inums := inums } } := by
  have hno : ¬s.books.HasIds n := by
    rintro ⟨o', ho', -⟩
    rw [lookup_none hn] at ho'
    cases ho'
  have hids : ∀ m, (∃ o', ((n, o) :: s.books.ipcNs).lookup m = some o' ∧ .msgIds ∈ o'.parts) ↔
      s.books.HasIds m := by
    intro m
    rw [lookup_cons_ite]
    split
    · next hm =>
      subst hm
      refine iff_of_false ?_ hno
      rintro ⟨o', ho', hp⟩
      cases ho'
      exact ho hp
    · exact Iff.rfl
  refine ⟨List.nodup_cons.2 ⟨hn, h.used⟩, h.once, ?_, h.hostEntry, ?_, ?_, h.cold, h.up⟩
  · intro hload
    exact List.mem_cons_of_mem _ (h.host hload)
  · intro m
    exact (h.ids m).trans (hids m).symm
  · intro hload m hm
    exact (hids m).2 (h.booted hload m hm)

/-- A fresh address has no record. -/
theorem Inv.acctWith (h : Inv k s) (hn : n ∉ s.books.ipcnsUsed) :
    s.books.acctWith n = n :: s.books.msgAcct := by
  unfold Books.acctWith
  rw [if_neg]
  intro hm
  obtain ⟨o, ho, -⟩ := (h.ids n).1 hm
  rw [lookup_none hn] at ho
  cases ho

theorem Inv.create (h : Inv k s) (hup : s.loaded = true) (hlate : ¬FailsLate s.books i) :
    Inv k { s with books := (s.books.ipcnsCreate i).1 } := by
  unfold Books.ipcnsCreate
  unfold FailsLate at hlate
  by_cases hk : i.kernelOwned = true
  · rw [if_pos hk] at hlate ⊢
    rw [ipcnsCreateKernel_eq]
    split
    · exact h
    next hsyms =>
    rcases hcopy : i.copyIpcs s.books.ipcnsUsed with _ | ⟨n, inum⟩
    · exact h
    have hn := (i.copyIpcs_fresh _ _ _ hcopy).1
    dsimp only
    split
    · exact h
    next hacct =>
    -- put back: with SysV of the module's the record would stay
    have habandon : (sysctlErr i ≠ 0 ∨ i.ipcEntry = false) →
        Inv k { s with books := s.books.abandoned i n } := by
      intro hfail
      have hsysv : i.sysvModule = false := by
        by_contra hsysv
        rw [Bool.not_eq_false] at hsysv
        simp only [hsysv, Bool.true_and, Bool.not_eq_true', Bool.not_eq_false] at hacct
        exact hlate ⟨by simpa using hsyms, hsysv, hacct, ⟨_, hcopy⟩, hfail⟩
      refine h.same ?_ (List.Sublist.refl _) rfl rfl
      refine ⟨?_, rfl, fun _ => Iff.rfl⟩
      simp [abandoned, kernelAcct, hsysv]
    split
    · next herr => exact habandon (Or.inl herr)
    split
    · next hentry => exact habandon (Or.inr (by simpa using hentry))
    · refine h.register hn rfl hup ?_
      unfold kernelObj kernelParts kernelAcct sysctlParts
      cases hsysv : i.sysvModule with
      | true =>
        rw [if_pos rfl, if_pos rfl, h.acctWith hn]
        refine Or.inl ⟨?_, rfl⟩
        simp
      | false =>
        rw [if_neg Bool.false_ne_true, if_neg Bool.false_ne_true]
        refine Or.inr ⟨?_, rfl⟩
        dsimp only
        split <;> simp
  · rw [if_neg hk] at hlate ⊢
    rw [ipcnsCreateModule_eq]
    rcases halloc : i.ipcAlloc s.books.ipcnsUsed with _ | n
    · exact h
    rcases hinum : i.ipcInum with _ | inum
    · exact h
    have hn := i.ipcAlloc_fresh _ _ halloc
    dsimp only
    split
    · exact h
    next hacct =>
    have hlate' : ¬(mqErr i ≠ 0 ∨ sysctlErr i ≠ 0 ∨ i.ipcEntry = false) := fun hfail =>
      hlate ⟨⟨n, halloc⟩, ⟨inum, hinum⟩, by simpa using hacct, hfail⟩
    split
    · next herr => exact absurd (Or.inl herr) hlate'
    split
    · next herr => exact absurd (Or.inr (Or.inl herr)) hlate'
    split
    · next hentry => exact absurd (Or.inr (Or.inr (by simpa using hentry))) hlate'
    · refine h.register hn rfl hup (Or.inl ⟨?_, h.acctWith hn⟩)
      unfold madeObj
      simp

theorem ipcnsPut_list (b : Books) (i : Inputs) (n : ℕ) :
    (b.ipcnsPut i (some n)).ipcnsList.Sublist b.ipcnsList := by
  have hkernel : (b.putIpcNs n).ipcnsList = b.ipcnsList :=
    congrArg (·.2.2) (lists_putIpcNs (b := b) (n := n))
  unfold ipcnsPut
  dsimp only
  split
  · split
    · exact hkernel ▸ List.Sublist.refl _
    · exact List.Sublist.refl _
  · unfold ipcnsPutModule
    split
    · exact List.Sublist.refl _
    split
    · exact List.Sublist.refl _
    split
    · exact List.Sublist.refl _
    · have hlists := congrArg (·.2.2) (lists_dsFreeIpcNs (b := b.listDel (b.ipcnsEntryOf n)) (n := n))
      show ((b.listDel (b.ipcnsEntryOf n)).dsFreeIpcNs n).lists.2.2.Sublist _
      rw [hlists]
      unfold lists listDel
      split
      · exact List.Sublist.refl _
      · exact List.erase_sublist

/-- What is freed had no record. -/
theorem not_hasIds {b : Books} (hlast : ¬LastOf b n)
    (hone : ∃ o, b.ipcNs.lookup n = some o ∧ o.refcount = 1) : ¬b.HasIds n := by
  obtain ⟨o, ho, hr⟩ := hone
  rintro ⟨o', ho', hids⟩
  rw [ho] at ho'
  cases ho'
  exact hlast ⟨o, ho, hr, hids⟩

theorem Inv.put (h : Inv k s) (hhost : i.host = k.host)
    (hkeep : n = k.host ∨ ¬LastOf s.books n) :
    Inv k { s with books := s.books.ipcnsPut i (some n) } := by
  have hlist := ipcnsPut_list s.books i n
  rcases ipcnsPut_cases h.used (hhost ▸ h.hostEntry) n with hs | ⟨⟨hne, hone⟩, hg⟩
  · exact h.same hs hlist rfl rfl
  · rw [hhost] at hne
    exact h.gone hg (not_hasIds (hkeep.resolve_left hne) hone) hne hlist rfl rfl

/-- The records are those of the namespaces with a table. -/
structure Exact (b : Books) : Prop where
  used : b.ipcnsUsed.Nodup
  once : b.msgAcct.Nodup
  ids : ∀ n, n ∈ b.msgAcct ↔ b.HasIds n

theorem Exact.same {b b' : Books} (h : Exact b) (hs : SameIds b b') : Exact b' := by
  refine ⟨hs.used ▸ h.used, hs.acct ▸ h.once, ?_⟩
  intro n
  rw [hs.acct, hs.ids]
  exact h.ids n

/-- `msg_init_ns` makes the record of its namespace. -/
theorem Exact.msgInit {b : Books} (h : Exact b) (hn : n ∈ b.ipcnsUsed)
    (ha : i.msgAcctAlloc = true) : Exact (b.msgInitNs i n).1 ∧
      (b.msgInitNs i n).1.ipcnsUsed = b.ipcnsUsed ∧ (b.msgInitNs i n).1.HasIds n ∧
        ∀ m, b.HasIds m → (b.msgInitNs i n).1.HasIds m := by
  have heq : (b.msgInitNs i n).1 =
      ({ b with msgAcct := b.acctWith n } : Books).modifyParts n (.msgIds :: ·) := by
    unfold msgInitNs acctWith
    rw [if_neg (by simp [ha])]
    dsimp only
    split <;> rfl
  have hids : ∀ m, (b.msgInitNs i n).1.HasIds m ↔ m = n ∨ b.HasIds m := by
    intro m
    rw [heq]
    unfold HasIds modifyParts modifyIpcNs
    dsimp only
    rw [lookup_modifyKey]
    split
    · next hm =>
      subst hm
      obtain ⟨o, ho⟩ := Option.ne_none_iff_exists'.1 (lookup_ne_none hn)
      rw [ho]
      refine iff_of_true ⟨_, rfl, ?_⟩ (Or.inl rfl)
      exact List.mem_cons_self
    · next hm => rw [or_iff_right hm]
  have hacct : ∀ m, m ∈ (b.msgInitNs i n).1.msgAcct ↔ m = n ∨ m ∈ b.msgAcct := by
    intro m
    rw [heq]
    show m ∈ b.acctWith n ↔ _
    unfold acctWith
    split
    · next hmem =>
      constructor
      · exact Or.inr
      · rintro (rfl | hm)
        · exact hmem
        · exact hm
    · exact List.mem_cons
  have hused : (b.msgInitNs i n).1.ipcnsUsed = b.ipcnsUsed := by
    rw [heq]
    exact ipcnsUsed_modifyKey _ _
  refine ⟨⟨hused ▸ h.used, ?_, ?_⟩, hused, (hids n).2 (Or.inl rfl), ?_⟩
  · rw [heq]
    show (b.acctWith n).Nodup
    unfold acctWith
    split
    · exact h.once
    · next hnot => exact List.nodup_cons.2 ⟨hnot, h.once⟩
  · intro m
    rw [hacct, hids, h.ids]
  · exact fun m hm => (hids m).2 (Or.inr hm)

/-- The load makes a record for each namespace that it initialises. -/
theorem Inv.load (h : Inv k s) (hfree : k.initIpcNs ∉ s.books.ipcnsUsed)
    {acctInit acctHost : Bool} (hinit : acctInit = true)
    (hacct : k.kernelOwned = true → k.sysvModule = true → acctHost = true) :
    Inv k { s with books := s.books.load k i acctInit acctHost, loaded := true } := by
  generalize hb₁ : ({ s.books with
    ipcNs := (k.initIpcNs, ⟨1, PROC_IPC_INIT_INO, [.semIds]⟩) :: s.books.ipcNs } : Books) = b₁
  have hused₁ : b₁.ipcnsUsed = k.initIpcNs :: s.books.ipcnsUsed := by
    rw [← hb₁]
    rfl
  have hinitMem : k.initIpcNs ∈ b₁.ipcnsUsed := by
    rw [hused₁]
    exact List.mem_cons_self
  have hhostMem : k.host ∈ b₁.ipcnsUsed := by
    rw [hused₁]
    by_cases hk : k.kernelOwned = true
    · exact List.mem_cons_of_mem _ (h.host (Or.inl hk))
    · rw [Boot.host, if_neg hk]
      exact List.mem_cons_self
  have hex₁ : Exact b₁ := by
    refine ⟨hused₁ ▸ List.nodup_cons.2 ⟨hfree, h.used⟩, ?_, ?_⟩
    · rw [← hb₁]
      exact h.once
    · intro m
      rw [← hb₁]
      unfold HasIds
      dsimp only
      rw [lookup_cons_ite]
      split
      · next hm =>
        subst hm
        refine iff_of_false ?_ ?_
        · intro hmem
          obtain ⟨o, ho, -⟩ := (h.ids k.initIpcNs).1 hmem
          rw [lookup_none hfree] at ho
          cases ho
        · rintro ⟨o, ho, hp⟩
          cases ho
          simp at hp
      · exact h.ids m
  -- the module's own namespace
  obtain ⟨hex₂, hused₂, hids₂, -⟩ := hex₁.msgInit (i := { i with msgAcctAlloc := acctInit })
    hinitMem hinit
  generalize hb₂ : (b₁.msgInitNs { i with msgAcctAlloc := acctInit } k.initIpcNs).1 = b₂
    at hex₂ hused₂ hids₂
  have hshm : SameIds b₂ (b₂.modifyParts k.initIpcNs (.shmIds :: ·)) :=
    sameIds_parts (by simp) _
  generalize hb₃ : b₂.modifyParts k.initIpcNs (.shmIds :: ·) = b₃ at hshm
  have hex₃ := hex₂.same hshm
  have hids₃ := (hshm.ids k.initIpcNs).2 hids₂
  have hused₃ := hshm.used.trans hused₂
  -- the kernel's first one
  obtain ⟨b₄, hb₄, hex₄, hused₄, hids₄⟩ : ∃ b₄, (if k.kernelOwned && k.sysvModule then
      (b₃.msgInitNs { i with msgAcctAlloc := acctHost } k.host).1.modifyParts k.host
        fun l => .shmIds :: .semIds :: l
      else b₃) = b₄ ∧ Exact b₄ ∧ b₄.ipcnsUsed = b₁.ipcnsUsed ∧ ∀ m ∈ k.booted, b₄.HasIds m := by
    refine ⟨_, rfl, ?_⟩
    by_cases hk : (k.kernelOwned && k.sysvModule) = true
    · have hk' : k.kernelOwned = true ∧ k.sysvModule = true := by simpa using hk
      obtain ⟨hex, hused, hids, hold⟩ := hex₃.msgInit (i := { i with msgAcctAlloc := acctHost })
        (n := k.host) (by rw [hused₃]; exact hhostMem) (hacct hk'.1 hk'.2)
      have hsame : SameIds (b₃.msgInitNs { i with msgAcctAlloc := acctHost } k.host).1 _ :=
        sameIds_parts (f := fun l => .shmIds :: .semIds :: l) (by simp) k.host
      rw [if_pos hk]
      refine ⟨hex.same hsame, hsame.used.trans (hused.trans hused₃), ?_⟩
      intro m hm
      rw [Boot.booted, if_pos hk, List.mem_cons, List.mem_singleton] at hm
      rw [hsame.ids]
      rcases hm with rfl | rfl
      · exact hold _ hids₃
      · exact hids
    · rw [if_neg hk]
      refine ⟨hex₃, hused₃, ?_⟩
      intro m hm
      rw [Boot.booted, if_neg hk, List.mem_singleton] at hm
      exact hm ▸ hids₃
  obtain ⟨b₅, hb₅, hsame⟩ : ∃ b₅, (if k.kernelOwned && i.mqueueReady && i.mqCreateMount == 0 then
      b₄.modifyParts k.host (.mqMnt :: ·) else b₄) = b₅ ∧ SameIds b₄ b₅ := by
    refine ⟨_, rfl, ?_⟩
    split
    · exact sameIds_parts (by simp) _
    · exact SameIds.refl b₄
  have hload : s.books.load k i acctInit acctHost = { b₅ with ipcnsList := [⟨k.host, false⟩] } := by
    unfold Books.load
    simp only [hb₁, hb₂, hb₃, hb₄, hb₅]
  have hex₅ := hex₄.same hsame
  rw [hload]
  refine ⟨hex₅.used, hex₅.once, ?_, ?_, hex₅.ids, ?_, ?_, h.up⟩
  · intro _
    show k.host ∈ b₅.ipcnsUsed
    rw [hsame.used, hused₄]
    exact hhostMem
  · intro x hx _
    rw [List.mem_singleton.1 hx]
  · intro _ m hm
    exact (hsame.ids m).2 (hids₄ m hm)
  · rintro ⟨⟩

/-- **Such steps keep the records right.** -/
theorem step_inv (h : Inv k s) (hc : Keeps k s act) (hs : step k s act = some s') : Inv k s' := by
  cases act with
  | load i acctInit acctHost =>
    simp only [step] at hs
    split at hs
    · cases hs
    · next hg =>
      obtain rfl := Option.some.inj hs
      rw [not_or, not_or] at hg
      exact h.load hg.2.1 hc.1 hc.2
  | create i =>
    simp only [step] at hs
    split at hs
    · cases hs
    · next hg =>
      obtain rfl := Option.some.inj hs
      rw [not_or, Bool.not_eq_true', Bool.not_eq_false, up, Bool.and_eq_true] at hg
      exact h.create hg.1.1 hc
  | get n =>
    obtain rfl := Option.some.inj hs
    refine h.same ?_ (List.Sublist.refl _) rfl rfl
    refine sameIds_modify ?_ n
    exact fun _ => Iff.rfl
  | put i n =>
    simp only [step] at hs
    split at hs
    · cases hs
    · next hg =>
      obtain rfl := Option.some.inj hs
      rw [not_or, not_not] at hg
      exact h.put hg.2.2.2.1 hc
  | kernelCopy n inum =>
    simp only [step] at hs
    split at hs
    · cases hs
    next hg =>
    obtain rfl := Option.some.inj hs
    rw [not_or] at hg
    refine h.kernelMade _ (not_or.1 hg.2).1 ?_
    simp
  | kernelPut n =>
    simp only [step] at hs
    split at hs
    · cases hs
    next o ho =>
    split at hs
    · cases hs
    next hg =>
    obtain rfl := Option.some.inj hs
    have hlist : (s.books.putIpcNs n).ipcnsList = s.books.ipcnsList :=
      congrArg (·.2.2) (lists_putIpcNs (b := s.books) (n := n))
    have hsub : (s.books.putIpcNs n).ipcnsList.Sublist s.books.ipcnsList :=
      hlist ▸ List.Sublist.refl _
    rcases putIpcNs_cases h.used n with hsame | ⟨hone, hgone⟩
    · exact h.same hsame hsub rfl rfl
    · refine h.gone hgone (not_hasIds hc hone) ?_ hsub rfl rfl
      rintro rfl
      obtain ⟨o', ho', hr⟩ := hone
      rw [ho] at ho'
      cases ho'
      exact hg (Or.inr ⟨rfl, hr⟩)
  | exit inUse stashed =>
    -- a record is there, so the module stays
    exfalso
    simp only [step] at hs
    split at hs
    · cases hs
    next hup =>
    rw [Bool.not_eq_true', Bool.not_eq_false, up, Bool.and_eq_true] at hup
    have hbooted : k.initIpcNs ∈ k.booted := by
      unfold Boot.booted
      split <;> exact List.mem_cons_self
    have hmem := (h.ids _).2 (h.booted hup.1 _ hbooted)
    have hnil : s.books.msgAcct = [] := hc
    rw [hnil] at hmem
    cases hmem

theorem init_inv (k : Boot) : Inv k (init k) := by
  have hids : ∀ n, ¬(init k).books.HasIds n := by
    rintro n ⟨o, ho, hp⟩
    unfold init at ho
    dsimp only at ho
    split at ho
    · rw [lookup_cons_ite] at ho
      split at ho
      · cases ho
        simp at hp
      · cases ho
    · cases ho
  refine ⟨?_, List.nodup_nil, ?_, ?_, ?_, ?_, fun _ => rfl, rfl⟩
  · unfold init ipcnsUsed
    dsimp only
    split <;> simp
  · rintro (hk | hk)
    · unfold init ipcnsUsed
      simp [hk]
    · cases hk
  · intro x hx
    cases hx
  · intro n
    exact iff_of_false (List.not_mem_nil) (hids n)
  · intro hload
    cases hload

/-- The records of a state with the invariant. -/
theorem Inv.recordsOk (h : Inv k s) : RecordsOk k s := by
  refine ⟨h.once, ?_, ?_⟩
  · intro hup n
    rw [Life.up, Bool.and_eq_true] at hup
    rw [h.ids]
    constructor
    · rintro ⟨o, ho, hp⟩
      exact ⟨o, ho, Or.inl hp⟩
    · rintro ⟨o, ho, hp | hn⟩
      · exact ⟨o, ho, hp⟩
      · exact h.booted hup.1 n hn
  · intro hexit
    rw [h.up] at hexit
    cases hexit

/-- **Where no record has to be removed, the table of records follows the
    namespaces.** -/
theorem records_follow (h : RunIf (step k) (Keeps k) (init k) s) : RecordsOk k s :=
  Inv.recordsOk (h.inv (I := Inv k) (init_inv k) fun _ _ _ hi hc hs => step_inv hi hc hs)

/-- A kernel without ipc namespaces of its own. -/
def bare : Boot := ⟨false, true, none, 0, true⟩

/-- A namespace is made, held twice, and one of the references is put. -/
theorem records_follow_made : ∃ s, RunIf (step bare) (Keeps bare) (init bare) s ∧
    RecordsOk bare s ∧ s.books.msgAcct = [5, 0] := by
  have hinit : RunIf (step bare) (Keeps bare) (init bare) (init bare) :=
    Relation.ReflTransGen.refl
  have hload := hinit.snoc (a := .load noNsproxy true true)
    (by exact ⟨rfl, fun _ _ => rfl⟩) rfl
  have hcreate := hload.snoc (a := .create noNsproxy) (by
    show ¬FailsLate _ noNsproxy
    simp [FailsLate, mqErr, sysctlErr, noNsproxy]) rfl
  have hget := hcreate.snoc (a := .get 5) (by exact trivial) rfl
  have hput := hget.snoc (a := .put noNsproxy 5) (by
    refine Or.inr ?_
    rintro ⟨o, ho, hr, -⟩
    cases ho
    cases hr) rfl
  exact ⟨_, hput, records_follow hput, rfl⟩

/-- The record of a namespace that is released stays. -/
theorem record_left : ¬∀ (k : Boot) (s : Life), Run (step k) (init k) s → RecordsOk k s := by
  intro h
  obtain ⟨s, hrun, hs⟩ := exec_check (step bare) (init bare)
    [.load noNsproxy true true, .create noNsproxy, .put noNsproxy 5]
    (fun s => s.up && decide (5 ∈ s.books.msgAcct) && decide (5 ∉ s.books.ipcnsUsed)) (by decide)
  simp only [Bool.and_eq_true, decide_eq_true_eq] at hs
  obtain ⟨⟨hup, hmem⟩, hnot⟩ := hs
  obtain ⟨o, ho, -⟩ := ((h bare s hrun).exact hup 5).1 hmem
  rw [lookup_none hnot] at ho
  cases ho

end Life

end DroidLkm.Slot
