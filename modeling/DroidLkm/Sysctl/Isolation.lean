/-
  The limits of one ipc namespace are its own.

  * `serve`: what an entry does to the numbers of one namespace, whatever else
    there is;
  * `proc_eq`: where the handlers reach the right member, a call is `serve` on
    the namespace it is for;
  * `Wf`: the namespaces lie apart, and the number of semaphore sets allowed in
    each is in its range;
  * `isolation`: after any run of such calls, a call acts on one namespace.
-/
import DroidLkm.Sysctl.Limits

namespace DroidLkm.Sysctl

open Machine

namespace Kernel

variable {Buf : Type} {k : Kernel Buf} {s s₀ s' : Sys} {c : Call Buf} {act : Act Buf} {f g : Field}
  {m : Cells ℤ} {ns ns' : ℤ} {t : CtlTable} {write : Bool} {buf : Buf} {xs : List ℤ} {e : Entry}

/-! ## Members in memory -/

@[simp] theorem length_limit (k : Kernel Buf) (m : Cells ℤ) (ns : ℤ) (f : Field) :
    (k.limit m ns f).length = f.count :=
  Cells.length_vec _ _ _ _

@[simp] theorem setLimit_limit (k : Kernel Buf) (m : Cells ℤ) (ns : ℤ) (f : Field) :
    k.setLimit m ns f (k.limit m ns f) = m :=
  Cells.setVec_vec _ _ _ _

theorem limit_setLimit (hn : xs.length = f.count) :
    k.limit (k.setLimit m ns f xs) ns f = xs :=
  Cells.vec_setVec f.width_pos hn

/-- Another member of the namespace keeps its numbers. -/
theorem limit_setLimit_field (hn : xs.length = f.count) (hfg : g ≠ f) :
    k.limit (k.setLimit m ns f xs) ns g = k.limit m ns g := by
  refine Cells.vec_setVec_apart f.width_pos g.width_pos ?_
  have h := k.apart g f hfg
  unfold Field.bytes at h
  rw [hn]
  omega

/-- And so does every member of another namespace. -/
theorem limit_setLimit_ns (hn : xs.length = f.count) (hns : k.Clear ns ns') (g : Field) :
    k.limit (k.setLimit m ns f xs) ns' g = k.limit m ns' g := by
  refine Cells.vec_setVec_apart f.width_pos g.width_pos ?_
  have hf := k.inside f
  have hg := k.inside g
  unfold Field.bytes at hf hg
  unfold Clear at hns
  rw [hn]
  omega

/-! ## One namespace -/

/-- `sem_check_semmni` and the rollback, on the numbers of the entry. -/
def semChecked (k : Kernel Buf) (xs : List ℤ) (r : List ℤ × Buf × ℤ) : List ℤ × Buf × ℤ :=
  let ret := if r.2.2 = 0 then
      (if r.1.getD 3 0 < 0 ∨ k.ipcMni < r.1.getD 3 0 then -ERANGE else 0)
    else r.2.2
  if ret ≠ 0 then (r.1.set 3 (xs.getD 3 0), r.2.1, ret) else (r.1, r.2.1, ret)

/-- The kernel's handler of an entry, on the numbers of one namespace. -/
def handler (k : Kernel Buf) (e : Entry) (write : Bool) (buf : Buf) (xs : List ℤ) :
    List ℤ × Buf × ℤ :=
  let t := e.table k.sysctlMni 0
  match e with
  | .shmmax | .shmall =>
    if k.ksDoulongvecMinmax then k.doulongvecMinmax.run t.extra1 t.extra2 write buf xs
    else (xs, buf, -ENOSYS)
  | .sem => k.dointvec.run t.extra1 t.extra2 write buf xs
  | _ =>
    if k.ksDointvecMinmax then k.dointvecMinmax.run t.extra1 t.extra2 write buf xs
    else (xs, buf, -ENOSYS)

/-- What an entry does to the numbers of one namespace. -/
def serve (k : Kernel Buf) (e : Entry) (write : Bool) (buf : Buf) (xs : List ℤ) :
    List ℤ × Buf × ℤ :=
  if e = .sem then k.semChecked xs (k.handler e write buf xs) else k.handler e write buf xs

theorem length_handler : (k.handler e write buf xs).1.length = xs.length := by
  unfold handler
  cases e <;> dsimp only <;> (try split) <;> simp only [Proc.length_run]

theorem handler_read : (k.handler e false buf xs).1 = xs := by
  unfold handler
  cases e <;> dsimp only <;> (try split) <;> simp only [Proc.read_run]

/-- The check keeps the numbers, or puts the last one back. -/
theorem semChecked_fst (xs : List ℤ) (r : List ℤ × Buf × ℤ) :
    (k.semChecked xs r).1 = r.1 ∧ ¬(r.1.getD 3 0 < 0 ∨ k.ipcMni < r.1.getD 3 0) ∨
      (k.semChecked xs r).1 = r.1.set 3 (xs.getD 3 0) := by
  unfold semChecked
  by_cases hret : r.2.2 = 0
  · rw [if_pos hret]
    by_cases hrange : r.1.getD 3 0 < 0 ∨ k.ipcMni < r.1.getD 3 0
    · rw [if_pos hrange]
      exact Or.inr rfl
    · rw [if_neg hrange]
      exact Or.inl ⟨rfl, hrange⟩
  · rw [if_neg hret]
    dsimp only
    rw [if_pos hret]
    exact Or.inr rfl

theorem length_serve : (k.serve e write buf xs).1.length = xs.length := by
  unfold serve
  split
  · rcases semChecked_fst (k := k) xs (k.handler e write buf xs) with ⟨h, -⟩ | h
    · rw [h, length_handler]
    · rw [h, List.length_set, length_handler]
  · exact length_handler

/-- The namespace that a call is for. -/
def target (k : Kernel Buf) (s : Sys) (c : Call Buf) : ℤ :=
  if k.PerNs then c.ns else k.taskNs s c.task

/-! ## Handlers on their namespace -/

theorem maxlen_div {w : ℕ} (hw : f.width = w) (hlen : t.maxlen = f.bytes) :
    t.maxlen / w = f.count := by
  rw [hlen, Field.bytes, ← hw, Nat.mul_div_cancel_left _ f.width_pos]

theorem ipcDointvecMinmax_eq {tns : ℤ} (hdata : k.ipcData tns t = ns + k.offsetof f)
    (hw : f.width = 4) (hlen : t.maxlen = f.bytes) :
    k.ipcDointvecMinmax tns t m write buf =
      let r := if k.ksDointvecMinmax then
          k.dointvecMinmax.run t.extra1 t.extra2 write buf (k.limit m ns f)
        else (k.limit m ns f, buf, -ENOSYS)
      ⟨k.setLimit m ns f r.1, r.2.1, r.2.2, none⟩ := by
  unfold ipcDointvecMinmax
  cases k.ksDointvecMinmax with
  | false => simp
  | true =>
    unfold Proc.apply limit setLimit
    simp only [hdata, maxlen_div hw hlen, hw]
    rfl

theorem ipcDoulongvecMinmax_eq {tns : ℤ} (hdata : k.ipcData tns t = ns + k.offsetof f)
    (hw : f.width = 8) (hlen : t.maxlen = f.bytes) :
    k.ipcDoulongvecMinmax tns t m write buf =
      let r := if k.ksDoulongvecMinmax then
          k.doulongvecMinmax.run t.extra1 t.extra2 write buf (k.limit m ns f)
        else (k.limit m ns f, buf, -ENOSYS)
      ⟨k.setLimit m ns f r.1, r.2.1, r.2.2, none⟩ := by
  unfold ipcDoulongvecMinmax
  cases k.ksDoulongvecMinmax with
  | false => simp
  | true =>
    unfold Proc.apply limit setLimit
    simp only [hdata, maxlen_div hw hlen, hw]
    rfl

/-- The orphans are those of the namespace that was written. -/
theorem ipcDointvecMinmaxOrphans_eq {tns : ℤ}
    (hdata : k.ipcData tns t = ns + k.offsetof .shmRmidForced)
    (hoff : k.layoutOff .shmRmidForced = k.offsetof .shmRmidForced) :
    ∃ orphans, k.ipcDointvecMinmaxOrphans tns t m write buf =
      { k.ipcDointvecMinmax tns t m write buf with orphans := orphans } ∧
        ∀ ns', orphans = some ns' → ns' = ns := by
  have hns : k.ipcNsOf (k.ipcData tns t) .shmRmidForced = ns := by
    rw [ipcNsOf, hdata, hoff]
    omega
  unfold ipcDointvecMinmaxOrphans ipcDointvecMinmax
  rw [hns]
  cases k.ksDointvecMinmax with
  | false => exact ⟨none, rfl, fun _ h => by cases h⟩
  | true =>
    simp only [Bool.not_true, Bool.false_eq_true, if_false]
    split
    · exact ⟨none, rfl, fun _ h => by cases h⟩
    · refine ⟨_, rfl, ?_⟩
      intro ns' h
      split at h
      · exact (Option.some.inj h).symm
      · cases h

/-- The semaphores, where the table is that of the namespace. -/
theorem ipcSemDointvec_eq {tns : ℤ} (hdata : t.data = ns + k.offsetof .semCtls)
    (hreloc : k.ipcData tns t = ns + k.offsetof .semCtls)
    (hoff : k.layoutOff .semCtls = k.offsetof .semCtls) (hlen : t.maxlen = Field.semCtls.bytes) :
    k.ipcSemDointvec tns t m write buf =
      let xs := k.limit m ns .semCtls
      let r := k.semChecked xs (k.dointvec.run t.extra1 t.extra2 write buf xs)
      ⟨k.setLimit m ns .semCtls r.1, r.2.1, r.2.2, none⟩ := by
  have hns : k.ipcNsOf (k.ipcData tns t) .semCtls = ns := by
    rw [ipcNsOf, hreloc, hoff]
    omega
  have hread : k.dointvec.apply 4 t m write buf =
      (k.setLimit m ns .semCtls
        (k.dointvec.run t.extra1 t.extra2 write buf (k.limit m ns .semCtls)).1,
        (k.dointvec.run t.extra1 t.extra2 write buf (k.limit m ns .semCtls)).2) := by
    unfold Proc.apply limit setLimit
    rw [hdata, maxlen_div (f := .semCtls) (w := 4) rfl hlen]
    rfl
  have hrun : (k.dointvec.run t.extra1 t.extra2 write buf (k.limit m ns .semCtls)).1.length = 4 :=
    (Proc.length_run ..).trans (length_limit k m ns .semCtls)
  generalize hr : k.dointvec.run t.extra1 t.extra2 write buf (k.limit m ns .semCtls) = r
    at hread hrun
  have hold : m (k.semmniAt ns) = (k.limit m ns .semCtls).getD 3 0 := by
    rw [semmniAt, hoff]
    exact (Cells.vec_getD (by decide) 0).symm
  have hnew : k.setLimit m ns .semCtls r.1 (ns + k.offsetof .semCtls + (4 : ℕ) * (3 : ℕ)) =
      r.1.getD 3 0 := by
    have h : k.limit (k.setLimit m ns .semCtls r.1) ns .semCtls = r.1 := limit_setLimit hrun
    rw [← h]
    exact ((Cells.vec_getD (by decide) 0).trans (by rw [h]; rfl)).symm
  have hset : (k.setLimit m ns .semCtls r.1).set (k.semmniAt ns) (m (k.semmniAt ns)) =
      k.setLimit m ns .semCtls (r.1.set 3 (m (k.semmniAt ns))) := by
    rw [semmniAt, hoff]
    exact Cells.set_setVec (by decide) (by omega)
  unfold ipcSemDointvec semCheckSemmni semChecked
  simp only [hns, hread, hr, hnew, hset]
  rw [hold]
  generalize (if r.2.2 = 0 then
    (if r.1.getD 3 0 < 0 ∨ k.ipcMni < r.1.getD 3 0 then -ERANGE else 0) else r.2.2) = ret
  by_cases hret : ret = 0
  · simp [hret]
  · simp [hret]

/-! ## Calls -/

/-- The table of the call leads to the member of the namespace it is for. -/
def Served (k : Kernel Buf) (s : Sys) : Act Buf → Prop
  | .call c => (∀ f, c.entry.field = some f → k.layoutOff f = k.offsetof f) ∧
    (c.entry = .sem → k.PerNs ∨ k.taskNs s c.task = k.initIpcNs)
  | _ => True

/-- Every row has the size of its member. -/
theorem opened_maxlen (hf : e.field = some f) (ns : ℤ) : (k.opened ns e).maxlen = f.bytes := by
  cases e <;> cases hf <;> rfl

theorem ipcData_opened (hf : e.field = some f) (hoff : k.layoutOff f = k.offsetof f)
    (ns tns : ℤ) :
    k.ipcData tns (k.opened ns e) = (if k.PerNs then ns else tns) + k.offsetof f := by
  have hdata : ∀ mni data, (e.table mni data).data = data := by
    cases e <;> first | exact fun _ _ => rfl | cases hf
  unfold ipcData opened
  rw [hf]
  simp only [hdata, hoff]
  split
  · rfl
  · omega

/-- A served call acts on the member of one namespace, as `serve` does. -/
theorem proc_eq (hs : k.Served s (.call c)) (hf : c.entry.field = some f) :
    ∃ orphans, (∀ ns, orphans = some ns → ns = k.target s c) ∧
      let r := k.serve c.entry c.write c.buf (k.limit s.mem (k.target s c) f)
      k.proc s c = ⟨k.setLimit s.mem (k.target s c) f r.1, r.2.1, r.2.2, orphans⟩ := by
  obtain ⟨hoffs, hsem⟩ := hs
  have hoff := hoffs f hf
  have hdata := ipcData_opened hf hoff c.ns (k.taskNs s c.task)
  change _ = k.target s c + _ at hdata
  have hnone : ∀ ns, none = some ns → ns = k.target s c := fun _ h => by cases h
  have hlen := opened_maxlen (k := k) hf c.ns
  unfold proc
  rcases c with ⟨task, ns, e, write, buf⟩
  cases e with
  | shmmax | shmall =>
    obtain rfl := Option.some.inj hf
    exact ⟨none, hnone, ipcDoulongvecMinmax_eq hdata rfl hlen⟩
  | shmmni | msgmax | msgmni | msgmnb =>
    obtain rfl := Option.some.inj hf
    exact ⟨none, hnone, ipcDointvecMinmax_eq hdata rfl hlen⟩
  | shmRmidForced =>
    obtain rfl := Option.some.inj hf
    obtain ⟨orphans, heq, horphans⟩ := ipcDointvecMinmaxOrphans_eq hdata hoff
    refine ⟨orphans, horphans, ?_⟩
    unfold procHandler
    rw [heq, ipcDointvecMinmax_eq hdata rfl hlen]
    rfl
  | autoMsgmni => cases hf
  | sem =>
    obtain rfl := Option.some.inj hf
    refine ⟨none, hnone, ?_⟩
    refine ipcSemDointvec_eq ?_ hdata hoff hlen
    -- the table itself is not relocated
    show (if k.PerNs then ns else k.initIpcNs) + (k.layoutOff .semCtls : ℤ) = _
    unfold target
    rw [hoff]
    split
    · rfl
    · next hver =>
      rw [(hsem rfl).resolve_left hver]

/-- `auto_msgmni` has no effect. -/
theorem proc_autoMsgmni (hf : c.entry.field = none) : (k.proc s c).mem = s.mem := by
  rcases c with ⟨task, ns, e, write, buf⟩
  cases e <;> first | rfl | cases hf

/-! ## Runs -/

/-- The namespaces lie apart, and the tasks are in them. -/
structure Apart (k : Kernel Buf) (s : Sys) : Prop where
  init : k.initIpcNs ∈ s.spaces
  host : k.host ∈ s.spaces
  tasks : ∀ ns ∈ s.tasks, ns ∈ s.spaces
  clear : ∀ ns ∈ s.spaces, ∀ ns' ∈ s.spaces, ns ≠ ns' → k.Clear ns ns'

/-- And each `semmni` is in its range. -/
structure Wf (k : Kernel Buf) (s : Sys) : Prop extends Apart k s where
  semmni : ∀ ns ∈ s.spaces, 0 ≤ (k.limit s.mem ns .semCtls).getD 3 0 ∧
    (k.limit s.mem ns .semCtls).getD 3 0 ≤ k.ipcMni

theorem Apart.taskNs (h : k.Apart s) (task : ℕ) : k.taskNs s task ∈ s.spaces := by
  unfold Kernel.taskNs
  rw [List.getD_eq_getElem?_getD]
  cases htask : s.tasks[task]? with
  | none => exact h.host
  | some ns => exact h.tasks ns (List.mem_of_getElem? htask)

theorem Apart.target (h : k.Apart s) (hc : c.ns ∈ s.spaces) : k.target s c ∈ s.spaces := by
  unfold Kernel.target
  split
  · exact hc
  · exact h.taskNs c.task

/-- What is set in one namespace is nothing to the others. -/
theorem Apart.limit_ne (h : k.Apart s) (hns : ns ∈ s.spaces) (hns' : ns' ∈ s.spaces)
    (hn : xs.length = f.count) (hne : ns' ≠ ns ∨ g ≠ f) :
    k.limit (k.setLimit s.mem ns f xs) ns' g = k.limit s.mem ns' g := by
  by_cases heq : ns' = ns
  · subst heq
    exact limit_setLimit_field hn (hne.resolve_left fun hnot => hnot rfl)
  · exact limit_setLimit_ns hn (h.clear ns hns ns' hns' (Ne.symm heq)) g

theorem serve_semmni (hold : 0 ≤ xs.getD 3 0 ∧ xs.getD 3 0 ≤ k.ipcMni) (hn : xs.length = 4) :
    0 ≤ (k.serve .sem write buf xs).1.getD 3 0 ∧
      (k.serve .sem write buf xs).1.getD 3 0 ≤ k.ipcMni := by
  have hlen : (k.handler .sem write buf xs).1.length = 4 := length_handler.trans hn
  rcases semChecked_fst (k := k) xs (k.handler .sem write buf xs) with ⟨h, hrange⟩ | h
  · unfold serve
    rw [if_pos rfl, h]
    rw [not_or] at hrange
    omega
  · unfold serve
    rw [if_pos rfl, h, List.getD_eq_getElem?_getD, List.getElem?_set_self (by omega)]
    exact hold

/-- Whatever is stored, the namespaces lie as before. -/
theorem Apart.of_mem (h : k.Apart s) (mem : Cells ℤ) : k.Apart { s with mem := mem } :=
  ⟨h.init, h.host, h.tasks, h.clear⟩

/-- A served call keeps every `semmni` in its range. -/
theorem Wf.call (h : k.Wf s) (hc : c.ns ∈ s.spaces) (hs : k.Served s (.call c)) :
    k.Wf { s with mem := (k.proc s c).mem } := by
  refine ⟨h.toApart.of_mem _, ?_⟩
  cases hf : c.entry.field with
  | none =>
    rw [proc_autoMsgmni hf]
    exact h.semmni
  | some f =>
    intro ns hns
    obtain ⟨orphans, -, heq⟩ := proc_eq hs hf
    rw [heq]
    have hlen : (k.serve c.entry c.write c.buf (k.limit s.mem (k.target s c) f)).1.length =
        f.count := length_serve.trans (length_limit k _ _ f)
    by_cases hsame : ns = k.target s c ∧ .semCtls = f
    · obtain ⟨rfl, rfl⟩ := hsame
      have hentry : c.entry = .sem := by
        cases he : c.entry <;> rw [he] at hf <;> cases hf
      dsimp only
      rw [limit_setLimit hlen, hentry]
      exact serve_semmni (h.semmni _ hns) (length_limit k _ _ _)
    · rw [not_and_or] at hsame
      dsimp only
      rw [h.limit_ne (h.target hc) hns hlen hsame]
      exact h.semmni ns hns

theorem Clear.symm (h : k.Clear ns ns') : k.Clear ns' ns := Or.symm h

/-- A namespace is made beside the others. -/
theorem limit_foldl (hns : k.Clear ns ns') (l : List Field) (g : Field) :
    k.limit (l.foldl (fun m f => k.setLimit m ns f f.initial) m) ns' g = k.limit m ns' g := by
  induction l generalizing m with
  | nil => rfl
  | cons f l ih => rw [List.foldl_cons, ih, limit_setLimit_ns f.length_initial hns]

theorem limit_initNs (k : Kernel Buf) (m : Cells ℤ) (ns : ℤ) :
    k.limit (k.initNs m ns) ns .semCtls = Field.semCtls.initial :=
  limit_setLimit (f := .semCtls) rfl

theorem initNs_semmni (k : Kernel Buf) (m : Cells ℤ) (ns : ℤ) :
    0 ≤ (k.limit (k.initNs m ns) ns .semCtls).getD 3 0 ∧
      (k.limit (k.initNs m ns) ns .semCtls).getD 3 0 ≤ k.ipcMni := by
  rw [limit_initNs]
  exact ⟨by decide, le_trans (by decide) k.ipcMni_le⟩

theorem Apart.create (h : k.Apart s) (hclear : ∀ ns' ∈ s.spaces, k.Clear ns ns') :
    k.Apart { s with mem := k.initNs s.mem ns, spaces := ns :: s.spaces } := by
  refine ⟨List.mem_cons_of_mem _ h.init, List.mem_cons_of_mem _ h.host, ?_, ?_⟩
  · intro n hn
    exact List.mem_cons_of_mem _ (h.tasks n hn)
  · intro n hn n' hn' hne
    rcases List.mem_cons.1 hn with rfl | hold
    · exact hclear n' ((List.mem_cons.1 hn').resolve_left (Ne.symm hne))
    · rcases List.mem_cons.1 hn' with rfl | hold'
      · exact (hclear n hold).symm
      · exact h.clear n hold n' hold' hne

/-- The tasks move among the namespaces. -/
theorem Apart.of_tasks (h : k.Apart s) {tasks : List ℤ} (htasks : ∀ ns ∈ tasks, ns ∈ s.spaces) :
    k.Apart { s with tasks := tasks } :=
  ⟨h.init, h.host, htasks, h.clear⟩

/-- One step, served or not. -/
theorem step_apart (h : k.Apart s) (hstep : k.step s act = some s') : k.Apart s' := by
  cases act with
  | call c =>
    simp only [step] at hstep
    split at hstep
    · obtain rfl := Option.some.inj hstep
      exact h.of_mem _
    · cases hstep
  | create ns =>
    simp only [step] at hstep
    split at hstep
    · next hclear =>
      obtain rfl := Option.some.inj hstep
      exact h.create hclear
    · cases hstep
  | free ns =>
    simp only [step] at hstep
    split at hstep
    · cases hstep
    next hfree =>
    obtain rfl := Option.some.inj hstep
    rw [not_or, not_or] at hfree
    have hmem : ∀ n, n ∈ s.spaces.filter (· ≠ ns) ↔ n ∈ s.spaces ∧ n ≠ ns := by
      intro n
      rw [List.mem_filter, decide_eq_true_eq]
    refine ⟨(hmem _).2 ⟨h.init, Ne.symm hfree.1⟩, (hmem _).2 ⟨h.host, Ne.symm hfree.2.1⟩, ?_, ?_⟩
    · intro n hn
      refine (hmem n).2 ⟨h.tasks n hn, ?_⟩
      rintro rfl
      exact hfree.2.2 hn
    · intro n hn n' hn'
      exact h.clear n ((hmem n).1 hn).1 n' ((hmem n').1 hn').1
  | fork task =>
    obtain rfl := Option.some.inj hstep
    refine h.of_tasks ?_
    intro n hn
    rcases List.mem_append.1 hn with hn | hn
    · exact h.tasks n hn
    · rw [List.mem_singleton.1 hn]
      exact h.taskNs task
  | enter task ns =>
    simp only [step] at hstep
    split at hstep
    · next hns =>
      obtain rfl := Option.some.inj hstep
      refine h.of_tasks ?_
      intro n hn
      rcases List.mem_or_eq_of_mem_set hn with hn | rfl
      · exact h.tasks n hn
      · exact hns
    · cases hstep
  | exit task =>
    obtain rfl := Option.some.inj hstep
    refine h.of_tasks ?_
    intro n hn
    rcases List.mem_or_eq_of_mem_set hn with hn | rfl
    · exact h.tasks n hn
    · exact h.host

/-- One step. -/
theorem step_wf (h : k.Wf s) (hs : k.Served s act) (hstep : k.step s act = some s') :
    k.Wf s' := by
  refine ⟨step_apart h.toApart hstep, ?_⟩
  cases act with
  | call c =>
    simp only [step] at hstep
    split at hstep
    · next hc =>
      obtain rfl := Option.some.inj hstep
      exact (h.call hc hs).semmni
    · cases hstep
  | create ns =>
    simp only [step] at hstep
    split at hstep
    · next hclear =>
      obtain rfl := Option.some.inj hstep
      intro n hn
      rcases List.mem_cons.1 hn with rfl | hn
      · exact initNs_semmni k s.mem n
      · dsimp only
        unfold initNs
        rw [limit_foldl (hclear n hn)]
        exact h.semmni n hn
    · cases hstep
  | free ns =>
    simp only [step] at hstep
    split at hstep
    · cases hstep
    · obtain rfl := Option.some.inj hstep
      exact fun n hn => h.semmni n (List.mem_filter.1 hn).1
  | fork task =>
    obtain rfl := Option.some.inj hstep
    exact h.semmni
  | enter task ns =>
    simp only [step] at hstep
    split at hstep
    · obtain rfl := Option.some.inj hstep
      exact h.semmni
    · cases hstep
  | exit task =>
    obtain rfl := Option.some.inj hstep
    exact h.semmni

/-- A call acts on one namespace: the one whose table was opened, below 6.1 the
    task's own. -/
structure Isolated (k : Kernel Buf) (s : Sys) (c : Call Buf) (f : Field) : Prop where
  live : k.target s c ∈ s.spaces
  /-- no other limit changes, there or elsewhere -/
  others : ∀ ns ∈ s.spaces, ∀ g, ns ≠ k.target s c ∨ g ≠ f →
    k.limit (k.proc s c).mem ns g = k.limit s.mem ns g
  /-- the limit of the entry becomes what was written -/
  written : k.limit (k.proc s c).mem (k.target s c) f =
    (k.serve c.entry c.write c.buf (k.limit s.mem (k.target s c) f)).1
  /-- a read shows the numbers in force, and changes nothing -/
  shown : c.write = false → (k.proc s c).mem = s.mem ∧
    ((k.proc s c).buf, (k.proc s c).err) =
      (k.handler c.entry false c.buf (k.limit s.mem (k.target s c) f)).2
  orphans : ∀ ns, (k.proc s c).orphans = some ns → ns = k.target s c

/-- A read of one namespace. -/
theorem serve_read (hsem : e = .sem → 0 ≤ xs.getD 3 0 ∧ xs.getD 3 0 ≤ k.ipcMni)
    (hn : e = .sem → xs.length = 4) :
    (k.serve e false buf xs).1 = xs ∧
      (k.serve e false buf xs).2 = (k.handler e false buf xs).2 := by
  have hread : (k.handler e false buf xs).1 = xs := handler_read
  unfold serve
  split
  · next he =>
    have hrange : ¬(xs.getD 3 0 < 0 ∨ k.ipcMni < xs.getD 3 0) := by
      have := hsem he
      omega
    have hset : xs.set 3 (xs.getD 3 0) = xs := by
      have hlen := hn he
      rw [List.getD_eq_getElem?_getD, List.getElem?_eq_getElem (by omega), Option.getD_some,
        List.set_getElem_self]
    unfold semChecked
    rw [hread, if_neg hrange, hset]
    split
    · next hret =>
      rw [if_neg (by simp)]
      exact ⟨rfl, Prod.ext rfl hret.symm⟩
    · next hret =>
      rw [if_pos hret]
      exact ⟨rfl, rfl⟩
  · exact ⟨hread, rfl⟩

/-- One call. -/
theorem Wf.isolated (h : k.Wf s) (hc : c.ns ∈ s.spaces) (hs : k.Served s (.call c))
    (hf : c.entry.field = some f) : k.Isolated s c f := by
  obtain ⟨orphans, horphans, heq⟩ := proc_eq hs hf
  have hlive := h.target hc
  have hlen : (k.serve c.entry c.write c.buf (k.limit s.mem (k.target s c) f)).1.length =
      f.count := length_serve.trans (length_limit k _ _ f)
  refine ⟨hlive, ?_, ?_, ?_, ?_⟩
  · intro ns hns g hne
    rw [heq]
    exact h.limit_ne hlive hns hlen hne
  · rw [heq]
    exact limit_setLimit hlen
  · intro hread
    have hsemf : c.entry = .sem → f = .semCtls := by
      intro he
      rw [he] at hf
      exact (Option.some.inj hf).symm
    have hsemmni : c.entry = .sem → 0 ≤ (k.limit s.mem (k.target s c) f).getD 3 0 ∧
        (k.limit s.mem (k.target s c) f).getD 3 0 ≤ k.ipcMni :=
      fun he => hsemf he ▸ h.semmni _ hlive
    have hcount : c.entry = .sem → (k.limit s.mem (k.target s c) f).length = 4 :=
      fun he => hsemf he ▸ length_limit k _ _ _
    obtain ⟨hsame, hshown⟩ := serve_read hsemmni hcount
    rw [heq, hread]
    dsimp only
    rw [hsame, setLimit_limit]
    exact ⟨rfl, hshown⟩
  · rw [heq]
    exact horphans

/-- **After any run of served calls, a served call acts on one namespace.** -/
theorem isolation (h₀ : k.Wf s₀) (h : RunIf k.step k.Served s₀ s) (hc : c.ns ∈ s.spaces)
    (hs : k.Served s (.call c)) (hf : c.entry.field = some f) : k.Isolated s c f :=
  Wf.isolated (h.inv h₀ fun _ _ _ hw hserved hstep => step_wf hw hserved hstep) hc hs hf

/-! ## Kernels before and after 6.1 -/

/-- What is written to the numbers, as far as it is in bounds. -/
def storeInts (lo hi : Option ℤ) : List ℤ → List ℤ → List ℤ × ℤ
  | [], xs => (xs, 0)
  | _ :: _, [] => ([], 0)
  | v :: vs, x :: xs =>
    if lo.any (v < ·) || hi.any (· < v) then (x :: xs, -EINVAL)
    else
      let r := storeInts lo hi vs xs
      (v :: r.1, r.2)

theorem length_storeInts (lo hi : Option ℤ) (vs xs : List ℤ) :
    (storeInts lo hi vs xs).1.length = xs.length := by
  induction vs generalizing xs with
  | nil => rfl
  | cons v vs ih =>
    cases xs with
    | nil => rfl
    | cons x xs =>
      unfold storeInts
      split
      · rfl
      · rw [List.length_cons, List.length_cons, ih]

/-- A handler whose buffer holds the numbers of the text. -/
def ints : Proc (List ℤ) where
  run lo hi write buf xs :=
    if write then ((storeInts lo hi buf xs).1, [], (storeInts lo hi buf xs).2) else (xs, xs, 0)
  length_run lo hi write buf xs := by
    split
    · exact length_storeInts lo hi buf xs
    · rfl
  read_run lo hi buf xs := rfl

/-- The members one behind the other. -/
def packed : Field → ℕ
  | .shmCtlmax => 0
  | .shmCtlall => 8
  | .shmCtlmni => 16
  | .shmRmidForced => 20
  | .msgCtlmax => 24
  | .msgCtlmni => 28
  | .msgCtlmnb => 32
  | .semCtls => 36

/-- A kernel of a version, without ipc namespaces of its own. -/
def ofVersion (versionCode : ℕ) : Kernel (List ℤ) where
  versionCode := versionCode
  dointvec := ints
  dointvecMinmax := ints
  doulongvecMinmax := ints
  ksDointvecMinmax := true
  ksDoulongvecMinmax := true
  initIpcNs := 4096
  host := 4096
  layoutOff := packed
  offsetof := packed
  size := 52
  ipcMni := IPCMNI
  ipcMni_le := le_refl _
  inside f := by cases f <;> decide
  apart f g := by cases f <;> cases g <;> decide

/-- The host, in a memory that was zero. -/
def hostOnly (k : Kernel Buf) : Sys := ⟨k.initNs (fun _ => 0) k.host, [k.host], [k.host]⟩

theorem hostOnly_wf (hk : k.initIpcNs = k.host) : k.Wf k.hostOnly := by
  refine ⟨⟨List.mem_singleton.2 hk, List.mem_singleton.2 rfl, fun _ h => h, ?_⟩, ?_⟩
  · intro ns hns ns' hns' hne
    rw [List.mem_singleton.1 hns, List.mem_singleton.1 hns'] at hne
    exact absurd rfl hne
  · intro ns hns
    rw [List.mem_singleton.1 hns]
    exact initNs_semmni k _ _

/-- A second task, in a namespace of its own. -/
def contained (k : Kernel Buf) : Sys :=
  ⟨k.initNs k.hostOnly.mem 8192, [8192, k.host], [k.host, 8192]⟩

theorem run_contained (hclear : k.Clear 8192 k.host) :
    RunIf k.step k.Served k.hostOnly k.contained := by
  have hcreate : k.step k.hostOnly (.create 8192) =
      some ⟨k.initNs k.hostOnly.mem 8192, [8192, k.host], [k.host]⟩ := by
    refine if_pos ?_
    intro ns hns
    rw [List.mem_singleton.1 hns]
    exact hclear
  have henter : k.step ⟨k.initNs k.hostOnly.mem 8192, [8192, k.host], [k.host, k.host]⟩
      (.enter 1 8192) = some k.contained := by
    simp only [step, if_pos List.mem_cons_self]
    rfl
  have hhost : RunIf k.step k.Served k.hostOnly k.hostOnly := Relation.ReflTransGen.refl
  have hfork := (hhost.snoc (by exact trivial) hcreate).snoc (a := .fork 0) (by exact trivial) rfl
  exact hfork.snoc (by exact trivial) henter

/-- The task writes all four numbers of `sem`. -/
def semWrite : Call (List ℤ) := ⟨1, 8192, .sem, true, [250, 32000, 32, 128]⟩

/-- In 6.1 the table is that of the namespace. -/
theorem isolation_sem : (ofVersion (KERNEL_VERSION 6 1 0)).Isolated
    (ofVersion (KERNEL_VERSION 6 1 0)).contained semWrite .semCtls := by
  have hclear : (ofVersion (KERNEL_VERSION 6 1 0)).Clear 8192 4096 := by decide
  refine isolation (hostOnly_wf rfl) (run_contained hclear) List.mem_cons_self ⟨?_, ?_⟩ rfl
  · exact fun _ _ => rfl
  · exact fun _ => Or.inl (le_refl _)

/-- Below 6.1 the same write goes to `init_ipc_ns`. -/
theorem sem_not_isolated : ¬∀ (k : Kernel (List ℤ)) (s₀ s : Sys) (c : Call (List ℤ)) (f : Field),
    k.layoutOff = k.offsetof → k.Wf s₀ → Run k.step s₀ s → c.ns ∈ s.spaces →
      c.entry.field = some f → k.Isolated s c f := by
  intro h
  have hclear : (ofVersion (KERNEL_VERSION 5 10 0)).Clear 8192 4096 := by decide
  have hiso := h (ofVersion (KERNEL_VERSION 5 10 0)) _ _ semWrite .semCtls rfl (hostOnly_wf rfl)
    (run_contained hclear).run List.mem_cons_self rfl
  have hsame := hiso.others 4096 (by decide) .semCtls (Or.inl (by decide))
  revert hsame
  decide

end Kernel

end DroidLkm.Sysctl
