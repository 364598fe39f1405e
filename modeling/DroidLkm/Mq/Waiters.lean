/-
  POSIX message queues — who waits first.

  `wq_add` looks for its place from one end of the list, `wq_get_first_waiter`
  takes from the other.

  * `Waiting`: a queue, the priorities of the tasks, and when each came;
  * `Urgent`: more urgent, or as urgent and earlier;
  * `Ordered`: each in the list is before those that are more urgent;
  * `wqDrain`: the first waiter taken again and again;
  * `wait_order`: in every run the first waiter is the most urgent one, and all are
    served in that order.
-/
import DroidLkm.Mq.Sections

namespace DroidLkm.Mq

/-- A queue with the priorities of the tasks, a clock, and the time at which each
    task was last put on a list. -/
structure Waiting where
  info : Info
  prio : ℕ → ℤ
  clock : ℕ
  arrival : ℕ → ℕ

/-- What happens to the lists. -/
inductive Waiting.Act where
  /-- `wq_add` -/
  | add (sr : Side) (c : ℕ)
  /-- an entry is taken off, wherever it is -/
  | del (sr : Side) (c : ℕ)
  /-- a task that does not wait has another priority -/
  | setPrio (c : ℕ) (p : ℤ)

namespace Waiting

/-- The task is on one of the lists. -/
def Waits (w : Waiting) (c : ℕ) : Prop := c ∈ w.info.eWaitQ .send ∨ c ∈ w.info.eWaitQ .recv

instance (w : Waiting) (c : ℕ) : Decidable (w.Waits c) := inferInstanceAs (Decidable (_ ∨ _))

def step (w : Waiting) : Act → Option Waiting
  | .add sr c =>
    if w.Waits c then none
    else some { w with
      info := w.info.wqAdd sr w.prio c
      clock := w.clock + 1
      arrival := Function.update w.arrival c w.clock }
  | .del sr c =>
    if c ∈ w.info.eWaitQ sr then some { w with info := w.info.wqDel sr c } else none
  | .setPrio c p =>
    if w.Waits c then none else some { w with prio := Function.update w.prio c p }

/-- A queue for which nobody waits. -/
def start (i : Info) (prio : ℕ → ℤ) : Waiting :=
  ⟨{ i with eWaitQ := fun _ => [] }, prio, 0, fun _ => 0⟩

/-- `c` is to be served before `d`: it is more urgent, or as urgent and came first. -/
def Urgent (w : Waiting) (c d : ℕ) : Prop :=
  w.prio c < w.prio d ∨ (w.prio c = w.prio d ∧ w.arrival c < w.arrival d)

instance (w : Waiting) (c d : ℕ) : Decidable (w.Urgent c d) := inferInstanceAs (Decidable (_ ∨ _))

end Waiting

/-- The first waiter is taken off the list, again and again. -/
def Info.wqDrain (sr : Side) : ℕ → Info → List ℕ
  | 0, _ => []
  | n + 1, i =>
    match i.wqGetFirstWaiter sr with
    | none => []
    | some c => c :: wqDrain sr n (i.wqDel sr c)

namespace Waiting

open Info Machine

variable {w v : Waiting} {i : Info} {sr : Side} {c d n : ℕ} {a : Act} {l : List ℕ}

/-- Each in the list is before those that are more urgent, and came before now. -/
structure Ordered (w : Waiting) (l : List ℕ) : Prop where
  urgent : l.Pairwise fun c d => w.Urgent d c
  past : ∀ c ∈ l, w.arrival c < w.clock

theorem not_urgent_self (w : Waiting) (c : ℕ) : ¬w.Urgent c c := by
  rintro (h | ⟨-, h⟩)
  · exact absurd h (lt_irrefl _)
  · exact absurd h (lt_irrefl _)

theorem Urgent.trans {e : ℕ} (h : w.Urgent c d) (h' : w.Urgent d e) : w.Urgent c e := by
  unfold Urgent at *
  omega

theorem Ordered.nodup (h : w.Ordered l) : l.Nodup :=
  h.urgent.imp fun {c d} hcd heq => by
    rw [heq] at hcd
    exact w.not_urgent_self d hcd

/-! ## The lists -/

/-- Only the tasks of the list matter. -/
theorem Ordered.congr (h : w.Ordered l) (hprio : ∀ c ∈ l, v.prio c = w.prio c)
    (harr : ∀ c ∈ l, v.arrival c = w.arrival c) (hclock : w.clock ≤ v.clock) : v.Ordered l := by
  refine ⟨h.urgent.imp_of_mem fun {c d} hc hd hcd => ?_, fun c hc => ?_⟩
  · unfold Urgent at *
    rw [hprio c hc, hprio d hd, harr c hc, harr d hd]
    exact hcd
  · rw [harr c hc]
    exact Nat.lt_of_lt_of_le (h.past c hc) hclock

theorem Ordered.erase (h : w.Ordered l) (c : ℕ) : w.Ordered (l.erase c) :=
  ⟨h.urgent.sublist List.erase_sublist, fun d hd => h.past d (List.mem_of_mem_erase hd)⟩

/-- **The new one** is put before the first that is not less urgent, so that all of its
    own priority are taken before it. -/
theorem pairwise_wqAddList (h : l.Pairwise fun c d => w.Urgent d c)
    (hlate : ∀ d ∈ l, w.arrival d < w.arrival c) :
    (wqAddList w.prio c l).Pairwise fun c d => w.Urgent d c := by
  induction l with
  | nil => exact List.pairwise_singleton _ c
  | cons x rest ih =>
    obtain ⟨hx, hrest⟩ := List.pairwise_cons.1 h
    unfold wqAddList
    split
    · next hle =>
      refine List.pairwise_cons.2 ⟨fun d hd => ?_, h⟩
      have hself : w.Urgent x c := by
        have hlt := hlate x List.mem_cons_self
        unfold Urgent
        omega
      rcases List.mem_cons.1 hd with rfl | hd
      · exact hself
      · exact (hx d hd).trans hself
    · next hlt =>
      refine List.pairwise_cons.2 ⟨fun d hd => ?_, ih hrest fun d hd =>
        hlate d (List.mem_cons_of_mem x hd)⟩
      rcases List.mem_cons.1 ((wqAddList_perm w.prio c rest).mem_iff.1 hd) with rfl | hd
      · exact .inl (not_le.1 hlt)
      · exact hx d hd

/-- Both lists are in order. -/
def Inv (w : Waiting) : Prop := ∀ sr, w.Ordered (w.info.eWaitQ sr)

theorem not_waits (h : ¬w.Waits c) (sr : Side) : c ∉ w.info.eWaitQ sr := by
  cases sr with
  | send => exact fun hc => h (.inl hc)
  | recv => exact fun hc => h (.inr hc)

theorem start_inv (i : Info) (prio : ℕ → ℤ) : (start i prio).Inv := fun _ =>
  ⟨List.Pairwise.nil, fun _ hc => by cases hc⟩

theorem step_inv (h : w.Inv) (hs : step w a = some v) : v.Inv := by
  cases a with
  | add sr c =>
    simp only [step, Option.ite_none_left_eq_some, Option.some.injEq] at hs
    obtain ⟨hwaits, rfl⟩ := hs
    have hother : ∀ sr, ∀ d ∈ w.info.eWaitQ sr, d ≠ c := by
      rintro sr d hd rfl
      exact not_waits hwaits sr hd
    have hsame : ∀ sr, ({ w with
        clock := w.clock + 1
        arrival := Function.update w.arrival c w.clock } : Waiting).Ordered (w.info.eWaitQ sr) := by
      intro sr'
      refine (h sr').congr (fun _ _ => rfl) (fun d hd => ?_) (Nat.le_succ _)
      exact Function.update_of_ne (hother sr' d hd) _ _
    intro sr'
    have hlist : (w.info.wqAdd sr w.prio c).eWaitQ sr' =
        if sr' = sr then wqAddList w.prio c (w.info.eWaitQ sr) else w.info.eWaitQ sr' :=
      Function.update_apply _ _ _ _
    have hnew : Function.update w.arrival c w.clock c = w.clock := Function.update_self _ _ _
    dsimp only
    rw [hlist]
    split
    · refine ⟨pairwise_wqAddList (hsame sr).urgent fun d hd => ?_, fun d hd => ?_⟩
      · have hd' : Function.update w.arrival c w.clock d = w.arrival d :=
          Function.update_of_ne (hother sr d hd) _ _
        dsimp only
        rw [hd', hnew]
        exact (h sr).past d hd
      · rcases List.mem_cons.1 ((wqAddList_perm w.prio c _).mem_iff.1 hd) with rfl | hd
        · dsimp only
          rw [hnew]
          exact Nat.lt_succ_self _
        · exact (hsame sr).past d hd
    · exact (hsame sr').congr (fun _ _ => rfl) (fun _ _ => rfl) (Nat.le_refl _)
  | del sr c =>
    simp only [step, Option.ite_none_right_eq_some, Option.some.injEq] at hs
    obtain ⟨-, rfl⟩ := hs
    intro sr'
    have hlist := wqDel_eWaitQ (i := w.info) sr sr' c
    dsimp only
    rw [hlist]
    split
    · exact ((h sr).erase c).congr (fun _ _ => rfl) (fun _ _ => rfl) (Nat.le_refl _)
    · exact (h sr').congr (fun _ _ => rfl) (fun _ _ => rfl) (Nat.le_refl _)
  | setPrio c p =>
    simp only [step, Option.ite_none_left_eq_some, Option.some.injEq] at hs
    obtain ⟨hwaits, rfl⟩ := hs
    intro sr'
    refine (h sr').congr (fun d hd => ?_) (fun _ _ => rfl) (Nat.le_refl _)
    have hne : d ≠ c := by
      rintro rfl
      exact not_waits hwaits sr' hd
    exact Function.update_of_ne hne _ _

theorem run_inv {i : Info} {prio : ℕ → ℤ} (h : Run step (start i prio) w) : w.Inv :=
  h.inv (start_inv i prio) fun _ _ _ hi hs => step_inv hi hs

/-! ## The first waiter -/

/-- The last of the list is the most urgent one. -/
theorem Ordered.first (h : w.Ordered (i.eWaitQ sr)) (hc : i.wqGetFirstWaiter sr = some c)
    (hd : d ∈ i.eWaitQ sr) (hne : d ≠ c) : w.Urgent c d := by
  obtain ⟨before, hlist⟩ := List.getLast?_eq_some_iff.1 hc
  have hurgent := h.urgent
  rw [hlist] at hurgent hd
  rcases List.mem_append.1 hd with hd | hd
  · exact (List.pairwise_append.1 hurgent).2.2 d hd c (List.mem_singleton_self c)
  · exact absurd (List.mem_singleton.1 hd) hne

/-- **All are served**, in the order of urgency and of their coming. -/
theorem Ordered.drain (h : w.Ordered (i.eWaitQ sr)) (hn : (i.eWaitQ sr).length ≤ n) :
    (wqDrain sr n i).Pairwise w.Urgent ∧ (wqDrain sr n i).Perm (i.eWaitQ sr) := by
  induction n generalizing i with
  | zero =>
    obtain hnil := List.length_eq_zero_iff.1 (Nat.le_zero.1 hn)
    rw [hnil]
    exact ⟨List.Pairwise.nil, List.Perm.refl _⟩
  | succ n ih =>
    unfold wqDrain
    rcases hc : i.wqGetFirstWaiter sr with _ | c
    · rw [wqGetFirstWaiter_none hc]
      exact ⟨List.Pairwise.nil, List.Perm.refl _⟩
    · have hmem := wqGetFirstWaiter_mem hc
      have hlist : (i.wqDel sr c).eWaitQ sr = (i.eWaitQ sr).erase c := by
        rw [wqDel_eWaitQ, if_pos rfl]
      have hlen := List.length_erase_of_mem hmem
      obtain ⟨hpairwise, hperm⟩ := ih (i := i.wqDel sr c) (hlist ▸ h.erase c)
        (by rw [hlist, hlen]; omega)
      rw [hlist] at hperm
      refine ⟨List.pairwise_cons.2 ⟨fun d hd => ?_, hpairwise⟩, ?_⟩
      · obtain ⟨hne, hd⟩ := h.nodup.mem_erase_iff.1 (hperm.mem_iff.1 hd)
        exact h.first hc hd hne
      · exact (hperm.cons c).trans (List.perm_cons_erase hmem).symm

/-- **The order of the waiters.**  In every run there is a first waiter unless nobody
    waits, it is more urgent than every other one, or as urgent and came first, and
    taking the first waiter again and again serves all in this order. -/
theorem wait_order {prio : ℕ → ℤ} (h : Run step (start i prio) w) (sr : Side) :
    (w.info.wqGetFirstWaiter sr = none ↔ w.info.eWaitQ sr = []) ∧
      (∀ c, w.info.wqGetFirstWaiter sr = some c → c ∈ w.info.eWaitQ sr ∧
        ∀ d ∈ w.info.eWaitQ sr, d ≠ c → w.Urgent c d) ∧
      (wqDrain sr (w.info.eWaitQ sr).length w.info).Pairwise w.Urgent ∧
      (wqDrain sr (w.info.eWaitQ sr).length w.info).Perm (w.info.eWaitQ sr) := by
  have hord := run_inv h sr
  refine ⟨List.getLast?_eq_none_iff, fun c hc => ⟨wqGetFirstWaiter_mem hc, ?_⟩,
    hord.drain (Nat.le_refl _)⟩
  exact fun d hd hne => hord.first hc hd hne

/-- Four receivers come, the second one goes away, and a task as urgent as the third
    comes after it. -/
theorem wait_order_four : ∃ w, Run step (start (State.init 1 8).info fun c => (c : ℤ) % 2) w ∧
    w.info.eWaitQ .recv = [3, 1, 6, 4] ∧
    (w.info.wqGetFirstWaiter .recv = none ↔ w.info.eWaitQ .recv = []) ∧
    (∀ c, w.info.wqGetFirstWaiter .recv = some c → c ∈ w.info.eWaitQ .recv ∧
      ∀ d ∈ w.info.eWaitQ .recv, d ≠ c → w.Urgent c d) ∧
    (wqDrain .recv (w.info.eWaitQ .recv).length w.info).Pairwise w.Urgent ∧
    (wqDrain .recv (w.info.eWaitQ .recv).length w.info).Perm (w.info.eWaitQ .recv) := by
  obtain ⟨w, hw, hlist⟩ := exec_check step (start (State.init 1 8).info fun c => (c : ℤ) % 2)
    [.add .recv 1, .add .recv 2, .add .recv 4, .del .recv 2, .add .recv 3, .add .recv 6]
    (fun w => decide (w.info.eWaitQ .recv = [3, 1, 6, 4])) (by decide)
  exact ⟨w, hw, of_decide_eq_true hlist, wait_order hw .recv⟩

end Waiting

end DroidLkm.Mq
