/-
  SysV semaphores — one operation vector (`ipc_sem.c`: `struct sembuf`,
  `struct sem_queue`, the scan of the vector at the start of
  `__do_semtimedop`, `perform_atomic_semop` and `perform_atomic_semop_slow`).

  * `Sembuf`, `SemQueue` are the source's structures; `SemState` is what the
    two functions read and write: the values of the array and the adjustments
    of the undo structures;
  * `performAtomicSemopSlow` performs the operations one after the other and
    rolls back when one stops; `performAtomicSemop` checks them all first and
    then writes, which `dupsop` permits only when no operation is preceded by
    an altering one on the same semaphore;
  * `attempt` is what both are for: all the operations or none.
    `slow_eq_attempt` is the rollback, `perform_eq_attempt` and `paths_agree`
    the agreement of the two paths for the `dupsop` that `scanSops` computes.

  Values and operations are integers: an `int` holds a value in
  `[0, SEMVMX]` plus a `short`.  `sempid` is not modelled, and `blocking` is the
  operation itself, where the source points to its place in the vector.
-/
import DroidLkm.Errno
import Mathlib.Data.Nat.Bitwise
import Mathlib.Tactic.Common

namespace DroidLkm.Sem

/-- The maximal value of a semaphore. -/
def SEMVMX : ℤ := 32767

/-- The maximal adjustment on exit. -/
def SEMAEM : ℤ := SEMVMX

def BITS_PER_LONG : ℕ := 64

/-! ## Vectors and queue entries -/

/-- `struct sembuf`; `undo` and `nowait` are the bits `SEM_UNDO` and
    `IPC_NOWAIT` of `sem_flg`. -/
structure Sembuf where
  semNum : ℕ
  semOp : ℤ
  undo : Bool
  nowait : Bool
  deriving DecidableEq, Repr

/-- `struct sem_queue`: the operation of the task `sleeper`, with its undo
    structure (`NULL` without `SEM_UNDO`).  `status` belongs to the sleeper's
    state, and `blocking`, which only `GETNCNT` and `GETZCNT` read, is part of
    the outcome of a call. -/
structure SemQueue where
  sleeper : ℕ
  undo : Option ℕ
  sops : List Sembuf
  alter : Bool
  dupsop : Bool
  deriving DecidableEq, Repr

/-- The values `sems[i].semval` of an array, and the adjustments
    `un->semadj[i]` of the undo structures. -/
structure SemState where
  semval : ℕ → ℤ
  semadj : ℕ → ℕ → ℤ

namespace SemState

/-- `un->semadj[i]`. -/
def adj (m : SemState) (un : Option ℕ) (i : ℕ) : ℤ :=
  match un with
  | some u => m.semadj u i
  | none => 0

/-- `un->semadj[i] = v`. -/
def setAdj (m : SemState) (un : Option ℕ) (i : ℕ) (v : ℤ) : SemState :=
  match un with
  | some u => { m with semadj := Function.update m.semadj u (Function.update (m.semadj u) i v) }
  | none => m

/-- `sems[i].semval = v`. -/
def setVal (m : SemState) (i : ℕ) (v : ℤ) : SemState :=
  { m with semval := Function.update m.semval i v }

end SemState

/-! ## The scan of the vector -/

/-- The variables of the scan: the largest semaphore number, whether there is
    an undo or an altering operation, the residues altered so far and whether
    one of them was accessed again. -/
structure SopScan where
  max : ℕ := 0
  undos : Bool := false
  alter : Bool := false
  dupsop : Bool := false
  dup : ℕ := 0

/-- The body of the scan. -/
def SopScan.next (a : SopScan) (sop : Sembuf) : SopScan :=
  let mask := 1 <<< (sop.semNum % BITS_PER_LONG)
  { max := if a.max ≤ sop.semNum then sop.semNum else a.max
    undos := a.undos || sop.undo
    alter := a.alter || (sop.semOp != 0)
    dupsop := a.dupsop || (a.dup &&& mask != 0)
    dup := if sop.semOp ≠ 0 then a.dup ||| mask else a.dup }

/-- The loop over `sops` at the start of `__do_semtimedop`. -/
def scanSops (sops : List Sembuf) : SopScan :=
  sops.foldl SopScan.next {}

/-! ## `perform_atomic_semop` -/

/-- How far an operation gets: it is possible, it must wait, or it is an
    error. -/
inductive Verdict where
  | ok
  | wouldBlock
  | outOfRange
  deriving DecidableEq, Repr

section
variable (un : Option ℕ)

/-- The checks on one operation. -/
def verdict (m : SemState) (sop : Sembuf) : Verdict :=
  let result := m.semval sop.semNum
  if sop.semOp = 0 ∧ result ≠ 0 then .wouldBlock
  else if result + sop.semOp < 0 then .wouldBlock
  else if SEMVMX < result + sop.semOp then .outOfRange
  else if sop.undo then
    let undo := m.adj un sop.semNum - sop.semOp
    if undo < -SEMAEM - 1 ∨ SEMAEM < undo then .outOfRange else .ok
  else .ok

/-- The writes of one operation: its adjustment and its value. -/
def applySop (m : SemState) (sop : Sembuf) : SemState :=
  let m := if sop.undo then m.setAdj un sop.semNum (m.adj un sop.semNum - sop.semOp) else m
  m.setVal sop.semNum (m.semval sop.semNum + sop.semOp)

/-- One turn of the rollback loop. -/
def revertSop (m : SemState) (sop : Sembuf) : SemState :=
  let m := m.setVal sop.semNum (m.semval sop.semNum - sop.semOp)
  if sop.undo then m.setAdj un sop.semNum (m.adj un sop.semNum + sop.semOp) else m

/-- What a call returns (`0`, `1` or a negated error number), the state it
    leaves and, when it blocks, the `blocking` it sets. -/
structure Outcome where
  result : ℤ
  state : SemState
  blocking : Option Sembuf := none

/-- The result of an operation that would block. -/
def blockCode (sop : Sembuf) : ℤ := if sop.nowait then -EAGAIN else 1

/-- The loop of `perform_atomic_semop_slow`; `done` are the operations
    performed so far, the last one first. -/
def slowLoop (m : SemState) (done : List Sembuf) : List Sembuf → Outcome
  | [] => { result := 0, state := m }
  | sop :: rest =>
    match verdict un m sop with
    | .ok => slowLoop (applySop un m sop) (sop :: done) rest
    | .wouldBlock =>
      { result := blockCode sop, state := done.foldl (revertSop un) m, blocking := some sop }
    | .outOfRange => { result := -ERANGE, state := done.foldl (revertSop un) m }

/-- `perform_atomic_semop_slow`. -/
def performAtomicSemopSlow (m : SemState) (sops : List Sembuf) : Outcome :=
  slowLoop un m [] sops

/-- The first loop of `perform_atomic_semop`: the first operation that is not
    possible in the state `m`, which the loop does not change. -/
def checkLoop (m : SemState) : List Sembuf → Option (Sembuf × Verdict)
  | [] => none
  | sop :: rest =>
    match verdict un m sop with
    | .ok => checkLoop m rest
    | v => some (sop, v)

/-- `perform_atomic_semop` without `dupsop`. -/
def performFast (m : SemState) (sops : List Sembuf) : Outcome :=
  match checkLoop un m sops with
  | none => { result := 0, state := sops.foldl (applySop un) m }
  | some (_, .outOfRange) => { result := -ERANGE, state := m }
  | some (sop, _) => { result := blockCode sop, state := m, blocking := some sop }

end

/-- `perform_atomic_semop`. -/
def performAtomicSemop (m : SemState) (q : SemQueue) : Outcome :=
  if q.dupsop then performAtomicSemopSlow q.undo m q.sops else performFast q.undo m q.sops

/-! ## All or nothing -/

section
variable (un : Option ℕ)

/-- The operation that stops the vector when its operations are performed one
    after the other. -/
def firstStop (m : SemState) : List Sembuf → Option (Sembuf × Verdict)
  | [] => none
  | sop :: rest =>
    match verdict un m sop with
    | .ok => firstStop (applySop un m sop) rest
    | v => some (sop, v)

/-- What an operation vector is meant to do: all its operations, in their
    order, or nothing. -/
def attempt (m : SemState) (sops : List Sembuf) : Outcome :=
  match firstStop un m sops with
  | none => { result := 0, state := sops.foldl (applySop un) m }
  | some (_, .outOfRange) => { result := -ERANGE, state := m }
  | some (sop, _) => { result := blockCode sop, state := m, blocking := some sop }

end

section
variable {un : Option ℕ} {m m' : SemState} {sop : Sembuf} {sops : List Sembuf}

@[simp] theorem adj_setVal (i : ℕ) (v : ℤ) : (m.setVal i v).adj un = m.adj un := by
  cases un <;> rfl

@[simp] theorem semval_setAdj (un : Option ℕ) (i : ℕ) (v : ℤ) :
    (m.setAdj un i v).semval = m.semval := by cases un <;> rfl

@[simp] theorem semval_setVal (i : ℕ) (v : ℤ) :
    (m.setVal i v).semval = Function.update m.semval i v := rfl

@[simp] theorem semadj_setVal (i : ℕ) (v : ℤ) : (m.setVal i v).semadj = m.semadj := rfl

@[simp] theorem semadj_setAdj_some (u i : ℕ) (v : ℤ) : (m.setAdj (some u) i v).semadj =
    Function.update m.semadj u (Function.update (m.semadj u) i v) := rfl

theorem applySop_semval : (applySop un m sop).semval =
    Function.update m.semval sop.semNum (m.semval sop.semNum + sop.semOp) := by
  unfold applySop; split <;> simp

theorem applySop_semadj_none : (applySop none m sop).semadj = m.semadj := by
  unfold applySop; split <;> rfl

theorem applySop_semadj_some (u : ℕ) : (applySop (some u) m sop).semadj =
    if sop.undo then Function.update m.semadj u
      (Function.update (m.semadj u) sop.semNum (m.semadj u sop.semNum - sop.semOp))
    else m.semadj := by
  unfold applySop; split <;> rfl

/-- An operation's adjustment. -/
theorem applySop_adj (i : ℕ) : (applySop un m sop).adj un i =
    m.adj un i - if un.isSome ∧ sop.undo ∧ i = sop.semNum then sop.semOp else 0 := by
  cases un with
  | none => simp [SemState.adj]
  | some u =>
    simp only [SemState.adj, applySop_semadj_some]
    by_cases hu : sop.undo
    · by_cases hi : i = sop.semNum
      · subst hi; simp [hu]
      · simp [hu, hi]
    · simp [hu]

/-- Operation `sop` cannot be noticed at other semaphores, nor when it waits
    for zero. -/
theorem applySop_same {i : ℕ} (h : sop.semOp ≠ 0 → sop.semNum ≠ i) :
    (applySop un m sop).semval i = m.semval i ∧ (applySop un m sop).adj un i = m.adj un i := by
  rw [applySop_semval, applySop_adj]
  by_cases h0 : sop.semOp = 0
  · rw [h0]; simp
  · have hne : i ≠ sop.semNum := fun he => h h0 he.symm
    simp [hne]

@[simp] theorem revertSop_applySop : revertSop un (applySop un m sop) sop = m := by
  obtain ⟨val, adj⟩ := m
  cases un with
  | none => cases h : sop.undo <;> simp [revertSop, applySop, SemState.setVal, SemState.setAdj, h]
  | some u =>
    cases h : sop.undo <;>
      simp [revertSop, applySop, SemState.setVal, SemState.setAdj, SemState.adj, h]

/-- The slow path undoes what it did: it is all or nothing. -/
theorem slowLoop_eq (done : List Sembuf) : slowLoop un m done sops =
    { attempt un m sops with
      state := if (firstStop un m sops).isNone then sops.foldl (applySop un) m
        else done.foldl (revertSop un) m } := by
  induction sops generalizing m done with
  | nil => rfl
  | cons sop rest ih =>
    cases hv : verdict un m sop with
    | ok =>
      have ih := ih (m := applySop un m sop) (sop :: done)
      simp only [slowLoop, attempt, firstStop, hv, List.foldl_cons, revertSop_applySop] at ih ⊢
      rw [ih]
      rcases firstStop un (applySop un m sop) rest with _ | ⟨s, _ | _ | _⟩ <;> rfl
    | wouldBlock => simp [slowLoop, attempt, firstStop, hv]
    | outOfRange => simp [slowLoop, attempt, firstStop, hv]

/-- **The slow path is all or nothing.** -/
theorem slow_eq_attempt : performAtomicSemopSlow un m sops = attempt un m sops := by
  rw [performAtomicSemopSlow, slowLoop_eq]
  simp only [attempt, List.foldl_nil]
  rcases firstStop un m sops with _ | ⟨s, _ | _ | _⟩ <;> rfl

theorem verdict_congr (hv : m.semval sop.semNum = m'.semval sop.semNum)
    (ha : m.adj un sop.semNum = m'.adj un sop.semNum) :
    verdict un m sop = verdict un m' sop := by
  simp only [verdict, hv, ha]

/-- No operation is preceded by an altering one on the same semaphore. -/
def NoDup (sops : List Sembuf) : Prop :=
  sops.Pairwise fun p s => p.semOp ≠ 0 → p.semNum ≠ s.semNum

theorem checkLoop_eq (hd : NoDup sops)
    (h : ∀ s ∈ sops, m'.semval s.semNum = m.semval s.semNum ∧
      m'.adj un s.semNum = m.adj un s.semNum) :
    checkLoop un m sops = firstStop un m' sops := by
  induction sops generalizing m' with
  | nil => rfl
  | cons sop rest ih =>
    obtain ⟨hsop, hrest⟩ := List.pairwise_cons.1 hd
    obtain ⟨hv, ha⟩ := h sop List.mem_cons_self
    have ih : checkLoop un m rest = firstStop un (applySop un m' sop) rest := ih hrest fun s hs => by
      obtain ⟨hbv, hba⟩ := h s (List.mem_cons_of_mem _ hs)
      exact ⟨(applySop_same (hsop s hs)).1.trans hbv, (applySop_same (hsop s hs)).2.trans hba⟩
    simp only [checkLoop, firstStop, verdict_congr hv ha, ih]

/-- The fast path, too, when nothing is accessed after it was altered. -/
theorem fast_eq_attempt (hd : NoDup sops) : performFast un m sops = attempt un m sops := by
  rw [performFast, checkLoop_eq hd fun _ _ => ⟨rfl, rfl⟩, attempt]

/-! ## What `dupsop` detects -/

theorem and_mask_ne_zero (d k : ℕ) : (d &&& 1 <<< k != 0) = d.testBit k := by
  rw [Nat.one_shiftLeft, Nat.and_two_pow]
  cases d.testBit k <;> simp

theorem testBit_or_mask (d k j : ℕ) :
    (d ||| 1 <<< k).testBit j = (d.testBit j || decide (k = j)) := by
  rw [Nat.one_shiftLeft, Nat.testBit_or, Nat.testBit_two_pow]

/-- The residues of the altered semaphores are collected in `dup`: when the
    scan finds no clash there is no duplicate. -/
theorem scan_noDup (a : SopScan) (h : (sops.foldl SopScan.next a).dupsop = false) :
    a.dupsop = false ∧ NoDup sops ∧
      ∀ s ∈ sops, a.dup.testBit (s.semNum % BITS_PER_LONG) = false := by
  induction sops generalizing a with
  | nil => exact ⟨h, List.Pairwise.nil, by simp⟩
  | cons sop rest ih =>
    obtain ⟨h1, h2, h3⟩ := ih (a.next sop) h
    simp only [SopScan.next, and_mask_ne_zero, Bool.or_eq_false_iff] at h1 h3
    refine ⟨h1.1, List.pairwise_cons.2 ⟨fun s hs hop he => ?_, h2⟩, fun s hs => ?_⟩
    · have := h3 s hs
      rw [if_pos hop, testBit_or_mask, he] at this
      simp at this
    · rcases List.mem_cons.1 hs with rfl | hs
      · exact h1.2
      · have := h3 s hs
        split at this
        · rw [testBit_or_mask] at this
          exact (Bool.or_eq_false_iff.1 this).1
        · exact this

/-- The flags `alter` and `dupsop` of an entry are those of its vector. -/
def SemQueue.Scanned (q : SemQueue) : Prop :=
  q.alter = (scanSops q.sops).alter ∧ q.dupsop = (scanSops q.sops).dupsop

/-- **Both paths of `perform_atomic_semop` perform all the operations or
    none**, for the `dupsop` that the scan computes. -/
theorem perform_eq_attempt {q : SemQueue} (hq : q.Scanned) :
    performAtomicSemop m q = attempt q.undo m q.sops := by
  unfold performAtomicSemop
  split
  · exact slow_eq_attempt
  · next hd =>
    rw [Bool.not_eq_true, hq.2] at hd
    exact fast_eq_attempt (scan_noDup {} hd).2.1

/-- A vector that cannot be performed changes nothing. -/
theorem attempt_unchanged : (attempt un m sops).result ≠ 0 → (attempt un m sops).state = m := by
  unfold attempt
  rcases firstStop un m sops with _ | ⟨s, _ | _ | _⟩ <;> intro h
  · cases h rfl
  all_goals rfl

/-- **The fast path is the slow path**: an entry made by the scan has the same
    outcome on both, which is that of its operations in their order, and where
    they cannot all be performed nothing has changed. -/
theorem paths_agree (m : SemState) (sleeper : ℕ) (un : Option ℕ) (sops : List Sembuf)
    (alter : Bool) :
    let q : SemQueue := ⟨sleeper, un, sops, alter, (scanSops sops).dupsop⟩
    performAtomicSemop m q = performAtomicSemopSlow un m sops ∧
      performAtomicSemop m q = attempt un m sops ∧
      ((performAtomicSemop m q).result ≠ 0 → (performAtomicSemop m q).state = m) := by
  intro q
  have hperform : performAtomicSemop m q = attempt un m sops :=
    perform_eq_attempt (q := { q with alter := (scanSops sops).alter }) ⟨rfl, rfl⟩
  refine ⟨hperform.trans slow_eq_attempt.symm, hperform, fun h => ?_⟩
  rw [hperform] at h ⊢
  exact attempt_unchanged h

end

end DroidLkm.Sem
