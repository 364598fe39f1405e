/-
  SysV semaphores — entries that a critical section completes.

  * `Entry`, `Fits`: what is true of a queued entry and of the queue it is in;
    `Wf` is the invariant of an array whose lock is held;
  * `Served c L c'`: the section has gone from `c` to `c'` by taking the
    entries `L` off the queues, each with the result `perform_atomic_semop`
    had for it;
  * `Served.wf`: serving keeps the invariant.
-/
import DroidLkm.Sem.Update
import DroidLkm.Sem.Vector
import Mathlib.Algebra.BigOperators.Group.Finset.Piecewise

namespace DroidLkm.Sem

variable {c c' c'' : Ctx} {m m' m'' : SemState} {k : Head} {q : SemQueue} {i : ℕ}

/-! ## Queued entries -/

/-- A queued entry of an array with `n` semaphores and the undo structures
    `l`: as `__do_semtimedop` has made it. -/
structure Entry (n : ℕ) (l : List ℕ) (q : SemQueue) : Prop where
  ne : q.sops ≠ []
  lt : ∀ s ∈ q.sops, s.semNum < n
  scanned : q.Scanned
  own : ∀ u, q.undo = some u → u ∈ l
  carries : (∃ s ∈ q.sops, s.undo) → q.undo ≠ none

/-- A vector with `SEM_UNDO` uses one of the undo structures. -/
theorem Entry.undo {n : ℕ} {l : List ℕ} (h : Entry n l q) : UndoIn q.undo q.sops l := by
  intro hs
  obtain ⟨u, hu⟩ := Option.ne_none_iff_exists'.1 (h.carries hs)
  exact ⟨u, h.own u hu, hu⟩

/-- What is queued where: altering operations and single decrements in
    `pending_alter`, vectors of wait-for-zero operations in `pending_const`,
    single operations in the queues of their semaphore. -/
def Fits : Head → SemQueue → Prop
  | .alter, q => q.alter = true ∧ ∀ s, q.sops = [s] → s.semOp < 0 ∧ s.nowait = false
  | .const, q => (∀ s ∈ q.sops, s.semOp = 0) ∧ 1 < q.sops.length
  | .semAlter i, q => ∃ s, q.sops = [s] ∧ s.semNum = i ∧ s.semOp < 0 ∧ s.nowait = false
  | .semConst i, q => ∃ s, q.sops = [s] ∧ s.semNum = i ∧ s.semOp = 0 ∧ s.nowait = false

/-- The list heads of an array with `n` semaphores. -/
def heads (n : ℕ) : Finset Head :=
  {.alter, .const} ∪ (Finset.range n).image .semAlter ∪ (Finset.range n).image .semConst

@[simp] theorem mem_heads_semAlter {n : ℕ} : Head.semAlter i ∈ heads n ↔ i < n := by
  simp [heads]

@[simp] theorem mem_heads_semConst {n : ℕ} : Head.semConst i ∈ heads n ↔ i < n := by
  simp [heads]

@[simp] theorem alter_mem_heads {n : ℕ} : Head.alter ∈ heads n := by simp [heads]

@[simp] theorem const_mem_heads {n : ℕ} : Head.const ∈ heads n := by simp [heads]

/-- The number of queued entries with a property. -/
def queued (n : ℕ) (pending : Head → List SemQueue) (p : SemQueue → Bool) : ℕ :=
  ∑ k ∈ heads n, (pending k).countP p

/-- Vectors of more than one operation. -/
def SemQueue.complex (q : SemQueue) : Bool := 1 < q.sops.length

/-- Replacing one queue changes the number of entries by as much. -/
theorem queued_update {n : ℕ} (pending : Head → List SemQueue) (p : SemQueue → Bool)
    (hk : k ∈ heads n) (l : List SemQueue) :
    queued n (Function.update pending k l) p + (pending k).countP p =
      queued n pending p + l.countP p := by
  have hcomm : (fun j => (Function.update pending k l j).countP p) =
      Function.update (fun j => (pending j).countP p) k (l.countP p) := by
    funext j; by_cases h : j = k
    · subst h; simp
    · simp [h]
  have h1 : queued n (Function.update pending k l) p =
      l.countP p + ∑ j ∈ heads n \ {k}, (pending j).countP p := by
    rw [queued, hcomm, Finset.sum_update_of_mem hk]
  have h2 : queued n pending p =
      (pending k).countP p + ∑ j ∈ heads n \ {k}, (pending j).countP p := by
    rw [queued, Finset.sdiff_singleton_eq_erase,
      Finset.add_sum_erase _ (fun j => (pending j).countP p) hk]
  omega

theorem queued_pos {n : ℕ} {pending : Head → List SemQueue} {p : SemQueue → Bool} :
    0 < queued n pending p ↔ ∃ k ∈ heads n, ∃ q ∈ pending k, p q := by
  rw [Nat.pos_iff_ne_zero, queued, Ne, Finset.sum_eq_zero_iff]
  simp [List.countP_eq_zero]

/-- An entry is in a list head of the array. -/
theorem Fits.mem_heads {n : ℕ} {l : List ℕ} (hf : Fits k q) (he : Entry n l q) : k ∈ heads n := by
  cases k with
  | alter => simp
  | const => simp
  | semAlter i => obtain ⟨s, hs, rfl, -⟩ := hf; simpa using he.lt s (by simp [hs])
  | semConst i => obtain ⟨s, hs, rfl, -⟩ := hf; simpa using he.lt s (by simp [hs])

/-! ## The invariant under the lock -/

/-- The invariant of an array whose lock is held. -/
structure Wf (c : Ctx) : Prop where
  /-- values and adjustments are in range -/
  ranges : Ranges c.mem
  /-- every entry is in a queue it fits -/
  entry : ∀ k, ∀ q ∈ c.pending k, Entry c.semNsems c.listId q ∧ Fits k q
  /-- `complex_count` counts the queued complex operations -/
  count : c.complexCount = queued c.semNsems c.pending SemQueue.complex
  /-- while the global queue is used, the semaphores' own are not -/
  split : c.complexCount ≠ 0 ∨ c.pending .alter ≠ [] → ∀ i, c.pending (.semAlter i) = []
  /-- no undo structure is linked twice -/
  nodup : c.listId.Nodup

theorem Wf.mem_heads (hw : Wf c) (hq : q ∈ c.pending k) : k ∈ heads c.semNsems :=
  (hw.entry k q hq).2.mem_heads (hw.entry k q hq).1

/-- What `perform_atomic_semop` returns for a queued entry. -/
theorem Wf.perform (hw : Wf c) (hq : q ∈ c.pending k) (m : SemState) :
    performAtomicSemop m q = attempt q.undo m q.sops :=
  perform_eq_attempt (hw.entry k q hq).1.scanned

/-! ## Serving entries -/

/-- The entries `L` are performed one after the other, with their results. -/
def Performed : SemState → List (SemQueue × ℤ) → SemState → Prop
  | m, [], m' => m' = m
  | m, (q, r) :: L, m' => (attempt q.undo m q.sops).result = r ∧ r ≤ 0 ∧
      Performed (attempt q.undo m q.sops).state L m'

theorem Performed.append {L L' : List (SemQueue × ℤ)} (h : Performed m L m')
    (h' : Performed m' L' m'') : Performed m (L ++ L') m'' := by
  induction L generalizing m with
  | nil => obtain rfl := h; exact h'
  | cons e L ih => obtain ⟨hr, hle, h⟩ := h; exact ⟨hr, hle, ih h⟩

theorem Performed.ranges {L : List (SemQueue × ℤ)} (h : Performed m L m') (hm : Ranges m) :
    Ranges m' := by
  induction L generalizing m with
  | nil => obtain rfl := h; exact hm
  | cons e L ih => exact ih h.2.2 (attempt_ranges hm)

/-- `c'` is `c` after the entries `L` have been taken off the queues, each with
    its result, and recorded in the wake queue. -/
structure Served (c : Ctx) (L : List (SemQueue × ℤ)) (c' : Ctx) : Prop where
  performed : Performed c.mem L c'.mem
  nsems : c'.semNsems = c.semNsems
  listId : c'.listId = c.listId
  lock : c'.useGlobalLock = c.useGlobalLock
  sublist : ∀ k, (c'.pending k).Sublist (c.pending k)
  count : ∀ p : SemQueue → Bool, queued c.semNsems c'.pending p + L.countP (fun e => p e.1) =
    queued c.semNsems c.pending p
  complex : c'.complexCount + L.countP (fun e => e.1.complex) = c.complexCount
  wakeQ : ∃ new, c'.wakeQ = c.wakeQ ++ new ∧ new.Perm L

namespace Served

variable {L L' : List (SemQueue × ℤ)}

protected theorem refl : Served c [] c where
  performed := rfl
  nsems := rfl
  listId := rfl
  lock := rfl
  sublist _ := List.Sublist.refl _
  count _ := by simp
  complex := by simp
  wakeQ := ⟨[], by simp, List.Perm.nil⟩

protected theorem trans (h : Served c L c') (h' : Served c' L' c'') : Served c (L ++ L') c'' where
  performed := h.performed.append h'.performed
  nsems := h'.nsems.trans h.nsems
  listId := h'.listId.trans h.listId
  lock := h'.lock.trans h.lock
  sublist k := (h'.sublist k).trans (h.sublist k)
  count p := by
    have h1 := h.count p
    have h2 := h'.count p
    rw [h.nsems] at h2
    rw [List.countP_append]
    omega
  complex := by
    have h1 := h.complex
    have h2 := h'.complex
    rw [List.countP_append]
    omega
  wakeQ := by
    obtain ⟨new, hw, hp⟩ := h.wakeQ
    obtain ⟨new', hw', hp'⟩ := h'.wakeQ
    exact ⟨new ++ new', by rw [hw', hw, List.append_assoc], hp.append hp'⟩

/-- An entry that is served was queued. -/
theorem mem (h : Served c L c') {e : SemQueue × ℤ} (he : e ∈ L) : ∃ k, e.1 ∈ c.pending k := by
  have hpos : 0 < L.countP fun x => decide (x.1 = e.1) :=
    List.countP_pos_iff.2 ⟨e, he, by simp⟩
  have hq := h.count fun x => decide (x = e.1)
  have hpos' : 0 < queued c.semNsems c.pending fun x => decide (x = e.1) := by omega
  obtain ⟨k, -, q, hk, hp⟩ := queued_pos.1 hpos'
  exact ⟨k, by simpa using (of_decide_eq_true hp) ▸ hk⟩

/-- **Serving entries keeps the invariant.** -/
theorem wf (h : Served c L c') (hw : Wf c) : Wf c' where
  ranges := h.performed.ranges hw.ranges
  entry k q hq := by
    rw [h.nsems, h.listId]
    exact hw.entry k q ((h.sublist k).subset hq)
  count := by
    have h1 := h.complex
    have h2 := h.count SemQueue.complex
    have h3 := hw.count
    rw [h.nsems]
    omega
  split hor i := by
    refine List.sublist_nil.1 (hw.split ?_ i ▸ h.sublist (.semAlter i))
    rcases hor with hc | hl
    · left
      have h1 := h.complex
      have h2 := h.count SemQueue.complex
      have h3 := hw.count
      omega
    · right
      intro h0
      exact hl (List.sublist_nil.1 (h0 ▸ h.sublist .alter))
  nodup := h.listId ▸ hw.nodup

end Served

/-! ## Taking one entry off a queue -/

section
variable {pre rest : List SemQueue}

/-- The entry `q` between `pre` and `rest`, performed with the result `r` and
    unlinked. -/
def taken (c : Ctx) (k : Head) (pre rest : List SemQueue) (q : SemQueue) : Ctx :=
  (c.setMem (attempt q.undo c.mem q.sops).state).unlinkQueue k (pre ++ rest) q

@[simp] theorem taken_mem : (taken c k pre rest q).mem = (attempt q.undo c.mem q.sops).state := rfl

@[simp] theorem taken_pending : (taken c k pre rest q).pending =
    Function.update c.pending k (pre ++ rest) := rfl

/-- An entry is taken, others are served, and then it is woken. -/
theorem Served.take {L : List (SemQueue × ℤ)} {r : ℤ} (hk : k ∈ heads c.semNsems)
    (hp : c.pending k = pre ++ q :: rest) (hr : (attempt q.undo c.mem q.sops).result = r)
    (hle : r ≤ 0) (h : Served (taken c k pre rest q) L c') :
    Served c ((q, r) :: L) (c'.wakeUpSemQueuePrepare q r) where
  performed := ⟨hr, hle, h.performed⟩
  nsems := h.nsems
  listId := h.listId
  lock := h.lock
  sublist j := by
    refine (h.sublist j).trans ?_
    rw [taken_pending]
    by_cases hj : j = k
    · subst hj
      simp only [Function.update_self, hp]
      exact List.Sublist.append_left (List.sublist_cons_self _ _) _
    · simp [hj]
  count p := by
    have h1 := h.count p
    have h2 := queued_update c.pending p hk (pre ++ rest)
    rw [hp] at h2
    simp only [taken_pending] at h1
    have hn : (taken c k pre rest q).semNsems = c.semNsems := rfl
    rw [hn] at h1
    simp only [Ctx.wakeUpSemQueuePrepare, List.countP_append, List.countP_cons] at h1 h2 ⊢
    omega
  complex := by
    have h1 := h.complex
    have h2 : (taken c k pre rest q).complexCount =
        if 1 < q.sops.length then c.complexCount - 1 else c.complexCount := rfl
    rw [h2] at h1
    simp only [Ctx.wakeUpSemQueuePrepare, List.countP_cons, SemQueue.complex] at h1 ⊢
    split at h1 <;> simp_all <;> omega
  wakeQ := by
    obtain ⟨new, hw, hperm⟩ := h.wakeQ
    refine ⟨new ++ [(q, r)], ?_, ?_⟩
    · have : (taken c k pre rest q).wakeQ = c.wakeQ := rfl
      simp only [Ctx.wakeUpSemQueuePrepare, hw, this, List.append_assoc]
    · exact (List.perm_append_singleton _ _).trans (hperm.cons _)

end

end DroidLkm.Sem
