/-
  SysV message queues — the loop of `ss_wakeup`.

  * `Wakeup` is where the loop is, `turn` one turn of it, with the entry whose
    successor has been read before the body moves it, and `run` the loop until
    it ends;
  * `run_wake`, `run_kill`: it ends after each entry has been looked at once;
  * `ss_wakeup_fair`: those that fit are woken, the others go behind them in
    their order, and all of them stay on the list.

  The queue of `Msg.Queue` keeps the list only: `wakeup_loop` says that it is
  the one that the loop leaves.
-/
import DroidLkm.Msg.Queue

namespace DroidLkm.Msg

/-- The entries that the loop has passed and those ahead, of which the first is
    the current one; `unlinked` are the entries whose `list.next` is `NULL`. -/
structure Wakeup where
  passed : List MsgSender
  ahead : List MsgSender
  stopTsk : Option ℕ
  wakeQ : List ℕ
  unlinked : List MsgSender
  deriving DecidableEq

namespace Wakeup

/-- The list before the loop. -/
def start (qSenders : List MsgSender) : Wakeup := ⟨[], qSenders, none, [], []⟩

/-- The entries in the order in which they are linked. -/
def list (w : Wakeup) : List MsgSender := w.passed ++ w.ahead

variable (fits : ℕ → Bool) (kill : Bool)

/-- One turn of the loop of `ss_wakeup`, unless it has ended. -/
def turn (w : Wakeup) : Option Wakeup :=
  match w.ahead with
  | [] => none
  | mss :: ahead =>
    if kill then
      some { w with
        passed := w.passed ++ [mss]
        ahead
        unlinked := w.unlinked ++ [mss]
        wakeQ := w.wakeQ ++ [mss.tsk] }
    else if w.stopTsk = some mss.tsk then none
    else if !fits mss.msgsz then
      let stopTsk := if w.stopTsk.isNone then some mss.tsk else w.stopTsk
      -- an entry that is the last already stays there, and the list ends with it
      if ahead = [] then some { w with passed := w.passed ++ [mss], ahead := [], stopTsk }
      else some { w with ahead := ahead ++ [mss], stopTsk }
    else some { w with passed := w.passed ++ [mss], ahead, wakeQ := w.wakeQ ++ [mss.tsk] }

/-- The loop, if it ends within so many turns. -/
def run : ℕ → Wakeup → Option Wakeup
  | 0, _ => none
  | n + 1, w =>
    match w.turn fits kill with
    | none => some w
    | some w => run n w

/-! ## The turns -/

variable {fits kill} {w w' : Wakeup} {todo moved passed unlinked : List MsgSender} {wakeQ : List ℕ}
  {n : ℕ} {stopTsk : Option ℕ}

theorem run_turn (h : w.turn fits kill = some w') :
    run fits kill (n + 1) w = run fits kill n w' := by
  rw [run, h]

theorem run_end (h : w.turn fits kill = none) : run fits kill (n + 1) w = some w := by
  rw [run, h]

/-- The senders that fit, and those that do not. -/
def fitting (fits : ℕ → Bool) (l : List MsgSender) : List MsgSender := l.filter (fits ·.msgsz)

def blocked (fits : ℕ → Bool) (l : List MsgSender) : List MsgSender := l.filter (!fits ·.msgsz)

theorem turn_fits {mss : MsgSender} {ahead : List MsgSender} (hf : fits mss.msgsz = true)
    (hs : stopTsk ≠ some mss.tsk) :
    turn fits false ⟨passed, mss :: ahead, stopTsk, wakeQ, unlinked⟩ =
      some ⟨passed ++ [mss], ahead, stopTsk, wakeQ ++ [mss.tsk], unlinked⟩ := by
  simp [turn, hf, hs]

/-- Once an entry has been moved, the loop ends when it comes to it. -/
theorem run_moved {stop : MsgSender} (hd : ((todo ++ stop :: moved).map MsgSender.tsk).Nodup) :
    run fits false (todo.length + 1)
        ⟨passed, todo ++ stop :: moved, some stop.tsk, wakeQ, unlinked⟩ =
      some ⟨passed ++ fitting fits todo, stop :: moved ++ blocked fits todo, some stop.tsk,
        wakeQ ++ (fitting fits todo).map MsgSender.tsk, unlinked⟩ := by
  induction todo generalizing passed moved wakeQ with
  | nil =>
    rw [run_end (by simp [turn])]
    simp [fitting, blocked]
  | cons a todo ih =>
    rw [List.cons_append, List.map_cons, List.nodup_cons] at hd
    have hne : some stop.tsk ≠ some a.tsk := by
      intro he
      refine hd.1 (List.mem_map.2 ⟨stop, ?_, Option.some.inj he⟩)
      exact List.mem_append_right _ List.mem_cons_self
    by_cases hf : fits a.msgsz = true
    · rw [List.length_cons, List.cons_append, run_turn (turn_fits hf hne), ih hd.2]
      simp [fitting, blocked, hf]
    · have hturn : turn fits false ⟨passed, a :: (todo ++ stop :: moved), some stop.tsk, wakeQ,
          unlinked⟩ = some ⟨passed, todo ++ stop :: (moved ++ [a]), some stop.tsk, wakeQ,
          unlinked⟩ := by
        simp [turn, hf, hne]
      have hperm : (todo ++ stop :: (moved ++ [a])).Perm (a :: (todo ++ stop :: moved)) := by
        rw [← List.cons_append, ← List.append_assoc]
        exact List.perm_append_singleton a _
      rw [List.length_cons, List.cons_append, run_turn hturn,
        ih ((hperm.map _).nodup_iff.2 (List.nodup_cons.2 hd))]
      simp [fitting, blocked, hf]

/-- **The loop that does not kill ends after each entry has been looked at
    once**, and what does not fit is then behind what does. -/
theorem run_wake (fits : ℕ → Bool) (passed : List MsgSender) (wakeQ : List ℕ)
    (unlinked : List MsgSender) (hd : (todo.map MsgSender.tsk).Nodup) :
    ∃ w, run fits false (todo.length + 1) ⟨passed, todo, none, wakeQ, unlinked⟩ = some w ∧
      w.list = passed ++ fitting fits todo ++ blocked fits todo ∧
      w.wakeQ = wakeQ ++ (fitting fits todo).map MsgSender.tsk ∧ w.unlinked = unlinked := by
  induction todo generalizing passed wakeQ with
  | nil => exact ⟨_, run_end rfl, by simp [list, fitting, blocked], by simp [fitting], rfl⟩
  | cons a todo ih =>
    have hd' := hd
    rw [List.map_cons, List.nodup_cons] at hd
    by_cases hf : fits a.msgsz = true
    · obtain ⟨w, hrun, hlist, hwake, hun⟩ := ih (passed ++ [a]) (wakeQ ++ [a.tsk]) hd.2
      refine ⟨w, ?_, ?_, ?_, hun⟩
      · rw [List.length_cons, run_turn (turn_fits hf (by simp)), hrun]
      · rw [hlist]
        simp [fitting, blocked, hf]
      · rw [hwake]
        simp [fitting, hf]
    · by_cases hlast : todo = []
      · subst hlast
        refine ⟨⟨passed ++ [a], [], some a.tsk, wakeQ, unlinked⟩, ?_, ?_, ?_, rfl⟩
        · rw [List.length_cons, run_turn (by simp [turn, hf]; rfl), run_end rfl]
        · simp [list, fitting, blocked, hf]
        · simp [fitting, hf]
      · have hturn : turn fits false ⟨passed, a :: todo, none, wakeQ, unlinked⟩ =
            some ⟨passed, todo ++ [a], some a.tsk, wakeQ, unlinked⟩ := by
          simp [turn, hf, hlast]
        have hperm : (todo ++ [a]).Perm (a :: todo) := List.perm_append_singleton a todo
        refine ⟨_, by rw [List.length_cons, run_turn hturn,
          run_moved ((hperm.map _).nodup_iff.2 hd')], ?_, ?_, rfl⟩
        · simp [list, fitting, blocked, hf]
        · simp [fitting, hf]

/-- The loop that kills looks at each entry once, too. -/
theorem run_kill : run fits true (todo.length + 1) ⟨passed, todo, stopTsk, wakeQ, unlinked⟩ =
    some ⟨passed ++ todo, [], stopTsk, wakeQ ++ todo.map MsgSender.tsk, unlinked ++ todo⟩ := by
  induction todo generalizing passed wakeQ unlinked with
  | nil => simp [run, turn]
  | cons a todo ih =>
    rw [List.length_cons, run_turn (by simp [turn]; rfl), ih]
    simp

/-- The loop of `Msg.Queue` leaves what this one does, with as much fuel. -/
theorem wakeup_loop {fuel : ℕ} (h : run fits false n ⟨passed, todo, stopTsk, wakeQ, unlinked⟩ =
    some w) (hn : n ≤ fuel) :
    ssWakeupLoop fits fuel passed todo stopTsk wakeQ = (w.list, w.wakeQ) := by
  induction n generalizing fuel passed todo stopTsk wakeQ with
  | zero => cases h
  | succ n ih =>
    obtain ⟨fuel, rfl⟩ := Nat.exists_eq_succ_of_ne_zero (Nat.ne_of_gt (Nat.lt_of_lt_of_le
      (Nat.succ_pos n) hn))
    have hn := Nat.le_of_succ_le_succ hn
    cases todo with
    | nil =>
      rw [run_end rfl] at h
      obtain rfl := Option.some.inj h
      simp [ssWakeupLoop, list]
    | cons mss ahead =>
      simp only [run, turn, Bool.false_eq_true, if_false] at h
      rw [ssWakeupLoop]
      by_cases hstop : stopTsk = some mss.tsk
      · rw [if_pos hstop] at h ⊢
        obtain rfl := Option.some.inj h
        rfl
      · rw [if_neg hstop] at h ⊢
        by_cases hf : (!fits mss.msgsz) = true
        · rw [if_pos hf] at h ⊢
          by_cases hlast : ahead = []
          · rw [if_pos hlast] at h ⊢
            have hloop := ih h hn
            cases fuel <;> simpa [ssWakeupLoop] using hloop
          · rw [if_neg hlast] at h ⊢
            exact ih h hn
        · rw [if_neg hf] at h ⊢
          exact ih h hn

end Wakeup

open Wakeup

/-- **`ss_wakeup` wakes the senders that fit, puts the others behind them and
    loses none; to kill, it wakes all and unlinks each.** -/
theorem ss_wakeup_fair (msq : MsgQueue) (hd : (msq.qSenders.map MsgSender.tsk).Nodup) :
    (∃ w, run (msgFitsInqueue msq) false (msq.qSenders.length + 1) (start msq.qSenders) = some w ∧
      w.wakeQ = (fitting (msgFitsInqueue msq) msq.qSenders).map MsgSender.tsk ∧
      w.list = fitting (msgFitsInqueue msq) msq.qSenders ++
        blocked (msgFitsInqueue msq) msq.qSenders ∧
      w.list.Perm msq.qSenders ∧ w.unlinked = [] ∧ (ssWakeup msq false).qSenders = w.list) ∧
    ∃ w, run (msgFitsInqueue msq) true (msq.qSenders.length + 1) (start msq.qSenders) = some w ∧
      w.wakeQ = msq.qSenders.map MsgSender.tsk ∧ w.unlinked = msq.qSenders ∧
      (ssWakeup msq true).qSenders = [] := by
  refine ⟨?_, _, run_kill, rfl, rfl, rfl⟩
  obtain ⟨w, hrun, hlist, hwake, hun⟩ := run_wake (msgFitsInqueue msq) [] [] [] hd
  refine ⟨w, hrun, hwake, hlist, ?_, hun, ?_⟩
  · rw [hlist]
    exact List.filter_append_perm _ _
  · unfold ssWakeup
    rw [if_neg Bool.false_ne_true]
    dsimp only
    rw [wakeup_loop hrun (by omega)]

/-- Of three senders the second does not fit: it goes behind the third. -/
theorem ss_wakeup_fair_three : ∃ w, run (msgFitsInqueue ⟨0, 0, 8, [], [], [⟨0, 4⟩, ⟨1, 9⟩, ⟨2, 1⟩],
    true⟩) false 4 (start [⟨0, 4⟩, ⟨1, 9⟩, ⟨2, 1⟩]) = some w ∧ w.wakeQ = [0, 2] ∧
      w.list = [⟨0, 4⟩, ⟨2, 1⟩, ⟨1, 9⟩] := by
  obtain ⟨⟨w, hrun, hwake, hlist, -⟩, -⟩ := ss_wakeup_fair
    ⟨0, 0, 8, [], [], [⟨0, 4⟩, ⟨1, 9⟩, ⟨2, 1⟩], true⟩ (by decide)
  exact ⟨w, hrun, hwake, hlist⟩

end DroidLkm.Msg
