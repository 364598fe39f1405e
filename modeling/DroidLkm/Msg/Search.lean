/-
  SysV message queues — the choice of a message.

  * `testmsg`, `convertMode`, `findMsg`: as in `ipc_msg.c`, where security
    hooks refuse nothing;
  * `find_none`: nothing is found only when nothing matches, and then the type
    that is searched for has not been changed;
  * `find_first`: the message found is the first of its type;
  * `Specified`: what the arguments of `msgrcv` ask for; `find_specified` says
    that it is what `convert_mode` and `find_msg` choose.
-/
import Mathlib.Algebra.Order.Ring.Int
import Mathlib.Data.Int.Notation
import Mathlib.Data.List.Basic

namespace DroidLkm.Msg

def LONG_MAX : ℤ := 9223372036854775807
def LONG_MIN : ℤ := -9223372036854775808

/-- `struct msg_msg`; `id` tells messages with the same contents apart. -/
structure MsgMsg where
  id : ℕ
  mType : ℤ
  mTs : ℕ
  deriving DecidableEq

/-- `SEARCH_ANY`, …, `SEARCH_NUMBER`. -/
inductive SearchMode where
  | any | equal | notequal | lessequal | number
  deriving DecidableEq

/-- `IPC_NOWAIT`, `MSG_NOERROR`, `MSG_EXCEPT` and `MSG_COPY` in a `msgflg`. -/
structure MsgFlg where
  nowait : Bool
  noerror : Bool
  except : Bool
  copy : Bool
  deriving DecidableEq

def testmsg (msg : MsgMsg) (type : ℤ) : SearchMode → Bool
  | .any | .number => true
  | .lessequal => msg.mType ≤ type
  | .equal => msg.mType = type
  | .notequal => msg.mType ≠ type

/-- The type to search for and the mode. -/
def convertMode (msgtyp : ℤ) (msgflg : MsgFlg) : ℤ × SearchMode :=
  if msgflg.copy then (msgtyp, .number)
  else if msgtyp = 0 then (msgtyp, .any)
  else if msgtyp < 0 then (if msgtyp = LONG_MIN then LONG_MAX else -msgtyp, .lessequal)
  else if msgflg.except then (msgtyp, .notequal)
  else (msgtyp, .equal)

/-- The loop of `find_msg` over the messages not looked at yet. -/
def findLoop (mode : SearchMode) : List MsgMsg → ℤ → Option MsgMsg → ℤ → Option MsgMsg × ℤ
  | [], msgtyp, found, _ => (found, msgtyp)
  | msg :: rest, msgtyp, found, count =>
    if testmsg msg msgtyp mode then
      if mode = .lessequal ∧ msg.mType ≠ 1 then
        findLoop mode rest (msg.mType - 1) (some msg) (count + 1)
      else if mode = .number then
        if msgtyp = count then (some msg, msgtyp)
        else findLoop mode rest msgtyp found (count + 1)
      else (some msg, msgtyp)
    else findLoop mode rest msgtyp found count

/-- The message chosen, `none` for `-EAGAIN`, and what `*msgtyp` becomes. -/
def findMsg (qMessages : List MsgMsg) (msgtyp : ℤ) (mode : SearchMode) : Option MsgMsg × ℤ :=
  findLoop mode qMessages msgtyp none 0

/-! ## Properties -/

variable {mode : SearchMode} {q : List MsgMsg} {ty count : ℤ} {found : Option MsgMsg} {m x : MsgMsg}

theorem testmsg_congr (h : m.mType = x.mType) : testmsg m ty mode = testmsg x ty mode := by
  cases mode <;> simp [testmsg, h]

theorem findLoop_none (h : (findLoop mode q ty found count).1 = none) :
    found = none ∧ (findLoop mode q ty found count).2 = ty ∧
      (mode ≠ .number → ∀ m ∈ q, testmsg m ty mode = false) := by
  induction q generalizing ty found count with
  | nil => exact ⟨h, rfl, by simp⟩
  | cons a q ih =>
    simp only [findLoop] at h ⊢
    split_ifs at h ⊢ with ht hl hn hc
    · cases (ih h).1
    · obtain ⟨h1, h2, -⟩ := ih h
      exact ⟨h1, h2, fun hne => absurd hn hne⟩
    · obtain ⟨h1, h2, h3⟩ := ih h
      refine ⟨h1, h2, fun hne m hm => ?_⟩
      rcases List.mem_cons.1 hm with rfl | hm
      · simpa using ht
      · exact h3 hne m hm

/-- Nothing is found: nothing matches, and the type is as it was. -/
theorem find_none (h : (findMsg q ty mode).1 = none) :
    (findMsg q ty mode).2 = ty ∧ (mode ≠ .number → ∀ m ∈ q, testmsg m ty mode = false) :=
  (findLoop_none h).2

theorem findLoop_mem (h : (findLoop mode q ty found count).1 = some m) :
    found = some m ∨ m ∈ q := by
  induction q generalizing ty found count with
  | nil => exact .inl h
  | cons a q ih =>
    simp only [findLoop] at h
    split_ifs at h with ht hl hn hc
    · rcases ih h with ha | hm
      · obtain rfl := Option.some.inj ha
        exact .inr List.mem_cons_self
      · exact .inr (List.mem_cons_of_mem _ hm)
    · obtain rfl := Option.some.inj h
      exact .inr List.mem_cons_self
    · exact (ih h).imp_right (List.mem_cons_of_mem _)
    · obtain rfl := Option.some.inj h
      exact .inr List.mem_cons_self
    · exact (ih h).imp_right (List.mem_cons_of_mem _)

theorem find_mem (h : (findMsg q ty mode).1 = some m) : m ∈ q :=
  (findLoop_mem h).resolve_left (by simp)

/-- A message found in the part of the queue still ahead matches, and none
    before it in that part has its type. -/
theorem findLoop_first (hn : mode ≠ .number) (h : (findLoop mode q ty found count).1 = some m) :
    found = some m ∨ testmsg m ty mode = true ∧
      ∃ pre post, q = pre ++ m :: post ∧ ∀ x ∈ pre, x.mType ≠ m.mType := by
  induction q generalizing ty found count with
  | nil => exact .inl h
  | cons a q ih =>
    simp only [findLoop] at h
    split_ifs at h with ht hl
    · right
      rcases ih h with ha | ⟨hm, pre, post, rfl, hpre⟩
      · obtain rfl := Option.some.inj ha
        exact ⟨ht, [], q, rfl, by simp⟩
      · -- the type searched for is now below that of `a`
        rw [hl.1] at hm ht ⊢
        simp only [testmsg, decide_eq_true_eq] at hm ht ⊢
        refine ⟨by omega, a :: pre, post, rfl, fun x hx => ?_⟩
        rcases List.mem_cons.1 hx with rfl | hx
        · omega
        · exact hpre x hx
    · obtain rfl := Option.some.inj h
      exact .inr ⟨ht, [], q, rfl, by simp⟩
    · refine (ih h).imp_right ?_
      rintro ⟨hm, pre, post, rfl, hpre⟩
      refine ⟨hm, a :: pre, post, rfl, fun x hx => ?_⟩
      rcases List.mem_cons.1 hx with rfl | hx
      · intro he
        rw [testmsg_congr he] at ht
        exact ht hm
      · exact hpre x hx

/-- The message found is the first of its type. -/
theorem find_first (hn : mode ≠ .number) (h : (findMsg q ty mode).1 = some m) :
    ∃ pre post, q = pre ++ m :: post ∧ ∀ x ∈ pre, x.mType ≠ m.mType :=
  ((findLoop_first hn h).resolve_left (by simp)).2

/-! ## What is asked for -/

/-- The earliest message of the least type not above `ty`. -/
def Least (q : List MsgMsg) (ty : ℤ) (m : MsgMsg) : Prop :=
  ∃ pre post, q = pre ++ m :: post ∧ m.mType ≤ ty ∧ (∀ x ∈ pre, m.mType < x.mType) ∧
    ∀ x ∈ post, m.mType ≤ x.mType

/-- The message that the arguments of `msgrcv` specify. -/
def Specified (q : List MsgMsg) (msgtyp : ℤ) (msgflg : MsgFlg) (m : MsgMsg) : Prop :=
  if msgflg.copy then 0 ≤ msgtyp ∧ q[msgtyp.toNat]? = some m
  else if msgtyp = 0 then q.head? = some m
  else if msgtyp < 0 then Least q |msgtyp| m
  else if msgflg.except then q.find? (·.mType ≠ msgtyp) = some m
  else q.find? (·.mType = msgtyp) = some m

variable {a : MsgMsg}

theorem least_cons : Least (a :: q) ty m ↔
    m = a ∧ a.mType ≤ ty ∧ (∀ x ∈ q, a.mType ≤ x.mType) ∨ Least q ty m ∧ m.mType < a.mType := by
  constructor
  · rintro ⟨pre, post, hq, hty, hpre, hpost⟩
    cases pre with
    | nil =>
      obtain ⟨rfl, rfl⟩ := List.cons.inj hq
      exact .inl ⟨rfl, hty, hpost⟩
    | cons b pre =>
      obtain ⟨rfl, rfl⟩ := List.cons.inj hq
      exact .inr ⟨⟨pre, post, rfl, hty, fun x hx => hpre x (List.mem_cons_of_mem _ hx), hpost⟩,
        hpre _ List.mem_cons_self⟩
  · rintro (⟨rfl, hty, hq⟩ | ⟨⟨pre, post, rfl, hty, hpre, hpost⟩, hlt⟩)
    · exact ⟨[], q, rfl, hty, by simp, hq⟩
    · exact ⟨a :: pre, post, rfl, hty, List.forall_mem_cons.2 ⟨hlt, hpre⟩, hpost⟩

/-- What is least for a bound is least for a smaller one that it meets. -/
theorem Least.bound {ty' : ℤ} (h : Least q ty m) (hm : m.mType ≤ ty') : Least q ty' m := by
  obtain ⟨pre, post, hq, -, hpre, hpost⟩ := h
  exact ⟨pre, post, hq, hm, hpre, hpost⟩

theorem Least.le (h : Least q ty m) : m.mType ≤ ty := by
  obtain ⟨pre, post, -, hm, -⟩ := h
  exact hm

/-- **The loop that lowers its own bound ends on the earliest message of the
    least type**, or on what it had where no type is low enough. -/
theorem findLoop_lessequal (h1 : ∀ x ∈ q, 1 ≤ x.mType) :
    (findLoop .lessequal q ty found count).1 = some m ↔
      Least q ty m ∨ found = some m ∧ ∀ x ∈ q, ty < x.mType := by
  induction q generalizing ty found count with
  | nil => simp [findLoop, Least]
  | cons a q ih =>
    obtain ⟨ha1, hq1⟩ := List.forall_mem_cons.1 h1
    rw [least_cons, List.forall_mem_cons]
    simp only [findLoop, testmsg, decide_eq_true_eq, true_and, reduceCtorEq, if_false]
    split_ifs with hty hne
    · -- the bound is lowered below the type of `a`
      rw [ih hq1]
      constructor
      · rintro (hl | ⟨ha, hq⟩)
        · have := hl.le
          exact .inl (.inr ⟨hl.bound (by omega), by omega⟩)
        · obtain rfl := Option.some.inj ha
          exact .inl (.inl ⟨rfl, hty, fun x hx => by have := hq x hx; omega⟩)
      · rintro ((⟨rfl, -, hq⟩ | ⟨hl, hlt⟩) | ⟨-, hlt, -⟩)
        · exact .inr ⟨rfl, fun x hx => by have := hq x hx; omega⟩
        · exact .inl (hl.bound (by omega))
        · omega
    · -- no type is below 1
      rw [not_not] at hne
      rw [Option.some.injEq]
      constructor
      · rintro rfl
        exact .inl (.inl ⟨rfl, hty, fun x hx => hne ▸ hq1 x hx⟩)
      · rintro ((⟨rfl, -⟩ | ⟨hl, hlt⟩) | ⟨-, hlt, -⟩)
        · rfl
        · obtain ⟨pre, post, rfl, -⟩ := hl
          have := hq1 m (List.mem_append_right _ List.mem_cons_self)
          omega
        · omega
    · rw [ih hq1]
      constructor
      · rintro (hl | ⟨hf, hq⟩)
        · have := hl.le
          exact .inl (.inr ⟨hl, by omega⟩)
        · exact .inr ⟨hf, by omega, hq⟩
      · rintro ((⟨rfl, hle, -⟩ | ⟨hl, -⟩) | ⟨hf, -, hq⟩)
        · omega
        · exact .inl hl
        · exact .inr ⟨hf, hq⟩

/-- `MSG_COPY` counts. -/
theorem findLoop_number : (findLoop .number q ty found count).1 =
    if count ≤ ty ∧ ty < count + q.length then q[(ty - count).toNat]? else found := by
  induction q generalizing count with
  | nil => rw [if_neg (by simp)]; rfl
  | cons a q ih =>
    simp only [findLoop, testmsg, if_true, reduceCtorEq, false_and, if_false]
    split_ifs with he hr hr
    · subst he
      simp
    · simp at hr
      omega
    · rw [ih, if_pos (by simp only [List.length_cons] at hr; omega)]
      have hn : (ty - count).toNat = (ty - (count + 1)).toNat + 1 := by omega
      rw [hn, List.getElem?_cons_succ]
    · rw [ih, if_neg (by simp only [List.length_cons] at hr; omega)]

/-- The other modes take the first message that matches. -/
theorem findLoop_find (hl : mode ≠ .lessequal) (hn : mode ≠ .number) :
    (findLoop mode q ty none count).1 = q.find? (testmsg · ty mode) := by
  induction q generalizing count with
  | nil => rfl
  | cons a q ih =>
    simp only [findLoop, hl, hn, false_and, if_false, List.find?_cons]
    split
    · next ht => rw [ht]
    · next ht =>
      rw [ih, Bool.eq_false_iff.2 ht]

/-- The bound that `convert_mode` makes, which is a `long`, serves as `|msgtyp|`. -/
theorem least_bound (hq : ∀ x ∈ q, x.mType ≤ LONG_MAX) (hty : ty < 0) :
    Least q (if ty = LONG_MIN then LONG_MAX else -ty) m ↔ Least q |ty| m := by
  rw [abs_of_neg hty]
  split_ifs with hmin
  · constructor
    · intro h
      have := h.le
      refine h.bound ?_
      rw [hmin]
      exact this.trans (by decide)
    · intro h
      refine h.bound (hq m ?_)
      obtain ⟨pre, post, rfl, -⟩ := h
      exact List.mem_append_right _ List.mem_cons_self
  · exact Iff.rfl

/-- **`msgrcv` chooses the message its arguments specify**, and returns
    `-EAGAIN` exactly when there is none. -/
theorem find_specified (q : List MsgMsg) (msgtyp : ℤ) (msgflg : MsgFlg)
    (hq : ∀ x ∈ q, 1 ≤ x.mType ∧ x.mType ≤ LONG_MAX) :
    let c := convertMode msgtyp msgflg
    (∀ m, (findMsg q c.1 c.2).1 = some m ↔ Specified q msgtyp msgflg m) ∧
      ((findMsg q c.1 c.2).1 = none ↔ ¬∃ m, Specified q msgtyp msgflg m) := by
  intro c
  have hall : ∀ m, (findMsg q c.1 c.2).1 = some m ↔ Specified q msgtyp msgflg m := by
    intro m
    simp only [c, convertMode, Specified, findMsg]
    split_ifs with hcopy hzero hneg hmin hexcept
    · rw [findLoop_number, zero_add, sub_zero]
      split_ifs with hr
      · exact (and_iff_right hr.1).symm
      · refine ⟨fun h => (by cases h), ?_⟩
        rintro ⟨h0, hm⟩
        obtain ⟨hlt, -⟩ := List.getElem?_eq_some_iff.1 hm
        exact absurd ⟨h0, by omega⟩ hr
    · rw [findLoop_find (by decide : SearchMode.any ≠ .lessequal) (by decide)]
      cases q <;> rfl
    · rw [findLoop_lessequal fun x hx => (hq x hx).1, ← least_bound (fun x hx => (hq x hx).2) hneg,
        if_pos hmin]
      simp
    · rw [findLoop_lessequal fun x hx => (hq x hx).1, ← least_bound (fun x hx => (hq x hx).2) hneg,
        if_neg hmin]
      simp
    · rw [findLoop_find (by decide : SearchMode.notequal ≠ .lessequal) (by decide)]
      rfl
    · rw [findLoop_find (by decide : SearchMode.equal ≠ .lessequal) (by decide)]
      rfl
  refine ⟨hall, ?_⟩
  rw [Option.eq_none_iff_forall_ne_some, not_exists]
  exact forall_congr' fun m => not_congr (hall m)

/-- Types 3, 2, 2 and 5: with `LONG_MIN` the first of type 2 is chosen. -/
theorem find_specified_min :
    let q : List MsgMsg := [⟨0, 3, 1⟩, ⟨1, 2, 1⟩, ⟨2, 2, 1⟩, ⟨3, 5, 1⟩]
    Specified q LONG_MIN ⟨false, false, false, false⟩ ⟨1, 2, 1⟩ := by
  intro q
  exact ((find_specified q LONG_MIN ⟨false, false, false, false⟩ (by decide)).1 ⟨1, 2, 1⟩).1 rfl

end DroidLkm.Msg
