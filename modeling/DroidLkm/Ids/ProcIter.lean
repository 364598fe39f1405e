/-
  Identifiers of IPC objects — what `/proc/sysvipc` shows (`ipc_util.c`).

  * `sysvipcFindIpc`, `sysvipcProcStart`, `sysvipcProcNext`, `sysvipcProcStop`: as in
    the source; a position is 0 for the header and index + 1 for an object;
  * `step`: a `seq_file` over them.  A line that does not fit is dropped, and a read
    may end at any line; the next one starts at the position that is left.  As in
    `seq_read`, `next` follows each line that is kept;
  * `Placed`: the position stands where what has been kept ends;
  * `proc_complete`: what a reader gets.

  The table does not change.
-/
import DroidLkm.Ids.FreeAll

namespace DroidLkm.Ids.ProcIter

open Machine FreeAll

/-- What `start` and `next` return, if not `NULL`: `SEQ_START_TOKEN` or an object; and
    the line that is shown for it. -/
inductive It where
  | token
  | obj (p : ℕ)
  deriving DecidableEq

inductive Lock where
  /-- the reader's side of `ids->rwsem` -/
  | rwsem
  | rcu
  | object (p : ℕ)
  deriving DecidableEq

/-- What `start` and `next` return, with the position and the locks that are held. -/
structure Found where
  it : Option It
  pos : ℤ
  locks : List Lock

/-- `idr_get_next`: the first index from `nextid` on, and its object. -/
def idrGetNext (r : Idr ℕ) (nextid : ℤ) : Option (ℕ × ℕ) :=
  if nextid < 0 then none
  else (r.getNext nextid.toNat).bind fun i => (r.find i).map fun p => (i, p)

/-- `sysvipc_find_ipc` -/
def sysvipcFindIpc (ids : IpcIds) (pos : ℤ) (locks : List Lock) : Found :=
  let tmpidx := Quotas.int (pos - 1)
  match idrGetNext ids.idr tmpidx with
  | none => ⟨none, pos, locks⟩
  | some (i, p) => ⟨some (.obj p), i + 1, .object p :: .rcu :: locks⟩

/-- `ipc_unlock`, if there is a locked object. -/
def ipcUnlock (it : Option It) (locks : List Lock) : List Lock :=
  match it with
  | some (.obj p) => (locks.erase (.object p)).erase .rcu
  | _ => locks

/-- `sysvipc_proc_next` -/
def sysvipcProcNext (ids : IpcIds) (it : It) (pos : ℤ) (locks : List Lock) : Found :=
  sysvipcFindIpc ids (pos + 1) (ipcUnlock (some it) locks)

/-- `sysvipc_proc_start` -/
def sysvipcProcStart (ids : IpcIds) (pos : ℤ) (locks : List Lock) : Found :=
  let locks := .rwsem :: locks
  if pos < 0 then ⟨none, pos, locks⟩
  else if pos = 0 then ⟨some .token, pos, locks⟩
  else sysvipcFindIpc ids pos locks

/-- `sysvipc_proc_stop` -/
def sysvipcProcStop (it : Option It) (locks : List Lock) : List Lock :=
  (ipcUnlock it locks).erase .rwsem

/-! ## The reader -/

inductive Phase where
  /-- between two reads -/
  | idle
  /-- `start` or `next` has returned this -/
  | ready (it : It)
  /-- and its line is kept -/
  | kept (it : It)
  /-- `start` or `next` has returned `NULL` -/
  | eof
  deriving DecidableEq

/-- A `seq_file`: `index` is the position, `shown` the lines kept, and `nexts` the
    number of calls of `next`. -/
structure Seq where
  index : ℤ
  phase : Phase
  locks : List Lock
  shown : List It
  nexts : ℕ

inductive Act where
  | start
  | show (keep : Bool)
  | next
  | stop
  deriving DecidableEq

namespace Seq

/-- The file as it is opened. -/
def opened : Seq := ⟨0, .idle, [], [], 0⟩

def goto (m : Seq) (f : Found) : Seq :=
  { m with
    index := f.pos
    locks := f.locks
    phase := match f.it with
      | none => .eof
      | some it => .ready it }

end Seq

def step (ids : IpcIds) (m : Seq) : Act → Option Seq
  | .start =>
    match m.phase with
    | .idle => some (m.goto (sysvipcProcStart ids m.index m.locks))
    | _ => none
  | .show keep =>
    match m.phase with
    | .ready it =>
      if keep then some { m with phase := .kept it, shown := m.shown ++ [it] } else some m
    | _ => none
  | .next =>
    match m.phase with
    | .kept it =>
      some { m.goto (sysvipcProcNext ids it m.index m.locks) with nexts := m.nexts + 1 }
    | _ => none
  | .stop =>
    match m.phase with
    | .ready it => some { m with phase := .idle, locks := sysvipcProcStop (some it) m.locks }
    | .eof => some { m with phase := .idle, locks := sysvipcProcStop none m.locks }
    | _ => none

/-- The locks that go with a result. -/
def It.holds : It → List Lock
  | token => [.rwsem]
  | obj p => [.object p, .rcu, .rwsem]

def Phase.holds : Phase → List Lock
  | idle => []
  | ready it | kept it => it.holds
  | eof => [.rwsem]

variable {l : Limits} {ids : IpcIds} {m m' : Seq} {act : Act} {it : It} {n : ℕ}
  {rest : List It} {locks : List Lock}

/-! ## Positions -/

/-- The lines for some entries. -/
def lines (es : List (ℕ × ℕ)) : List It := es.map fun e => .obj e.2

/-- The lines from a position on. -/
def Left (ids : IpcIds) : ℕ → List It → Prop
  | 0, rest => ∃ es, Ahead ids.idr.find 0 es ∧ rest = .token :: lines es
  | i + 1, rest => ∃ es, Ahead ids.idr.find i es ∧ rest = lines es

/-- The position is the one of its first line, and the next one that of the others. -/
structure Exact (l : Limits) (ids : IpcIds) (n : ℕ) (it : It) (rest : List It) : Prop where
  here : Left ids n (it :: rest)
  after : Left ids (n + 1) rest
  le : n ≤ l.mni

theorem int_eq (h : n ≤ l.mni) : Quotas.int ((n : ℤ) + 1 - 1) = n := by
  have hmni : l.mni ≤ 2 ^ 24 := Nat.pow_le_pow_right (by decide) l.shift_le
  rw [Int.add_sub_cancel]
  refine Quotas.int_eq (Int.natCast_nonneg n) ?_
  unfold Quotas.INT_MAX
  omega

theorem idrGetNext_ahead {r : Idr ℕ} {es : List (ℕ × ℕ)} (h : Ahead r.find n es) :
    idrGetNext r n = es.head? := by
  rw [idrGetNext, if_neg (by omega), Int.toNat_natCast, Idr.getNext_ahead h]
  cases es with
  | nil => rfl
  | cons e es =>
    have he := h.find_eq List.mem_cons_self
    simp [he]

/-- **What the search finds**: the first line that is left, if there is one, and then its
    position. -/
theorem find_left (hfiled : Filed l ids) (h : Left ids (n + 1) rest) (hle : n ≤ l.mni)
    (locks : List Lock) :
    rest = [] ∧ sysvipcFindIpc ids (n + 1) locks = ⟨none, n + 1, locks⟩ ∨
      ∃ p i rest', rest = .obj p :: rest' ∧ Exact l ids (i + 1) (.obj p) rest' ∧
        sysvipcFindIpc ids (n + 1) locks =
          ⟨some (.obj p), (i + 1 : ℕ), .object p :: .rcu :: locks⟩ := by
  obtain ⟨es, hes, rfl⟩ := h
  unfold sysvipcFindIpc
  rw [int_eq hle]
  dsimp only
  rw [idrGetNext_ahead hes]
  cases es with
  | nil => exact .inl ⟨rfl, rfl⟩
  | cons e es =>
    have hlt := hfiled.lt (hes.find_eq List.mem_cons_self)
    exact .inr ⟨e.2, e.1, lines es, rfl,
      ⟨⟨e :: es, hes.first, rfl⟩, ⟨es, hes.tail, rfl⟩, hlt⟩, rfl⟩

/-- What `start` or `next` should give when these lines are left. -/
inductive Landed (l : Limits) (ids : IpcIds) : List It → Found → Prop where
  | eof (n : ℕ) (h : Left ids n []) (hle : n ≤ l.mni + 1) : Landed l ids [] ⟨none, n, [.rwsem]⟩
  | ready (n : ℕ) (it : It) (rest : List It) (h : Exact l ids n it rest) :
      Landed l ids (it :: rest) ⟨some it, n, it.holds⟩

theorem find_landed (hfiled : Filed l ids) (h : Left ids (n + 1) rest) (hle : n ≤ l.mni) :
    Landed l ids rest (sysvipcFindIpc ids (n + 1) [.rwsem]) := by
  rcases find_left hfiled h hle [.rwsem] with ⟨rfl, hf⟩ | ⟨p, i, rest', rfl, hexact, hf⟩
  · rw [hf]
    exact .eof (n + 1) h (by omega)
  · rw [hf]
    exact .ready (i + 1) (.obj p) rest' hexact

theorem start_landed (hfiled : Filed l ids) (h : Left ids n rest) (hle : n ≤ l.mni + 1) :
    Landed l ids rest (sysvipcProcStart ids n []) := by
  unfold sysvipcProcStart
  cases n with
  | zero =>
    obtain ⟨es, hes, rfl⟩ := h
    exact .ready 0 .token (lines es) ⟨⟨es, hes, rfl⟩, ⟨es, hes, rfl⟩, Nat.zero_le _⟩
  | succ n =>
    dsimp only
    rw [if_neg (by omega), if_neg (by omega)]
    exact find_landed hfiled h (by omega)

/-- The lock of what has been shown is dropped before the search. -/
theorem next_landed (hfiled : Filed l ids) (h : Exact l ids n it rest) :
    Landed l ids rest (sysvipcProcNext ids it n it.holds) := by
  have hunlock : ipcUnlock (some it) it.holds = [.rwsem] := by
    cases it <;> simp [ipcUnlock, It.holds]
  rw [sysvipcProcNext, hunlock]
  exact find_landed hfiled h.after h.le

/-! ## A step -/

/-- Where a `seq_file` stands, `rest` being the lines that have not been kept. -/
structure Placed (l : Limits) (ids : IpcIds) (m : Seq) (rest : List It) : Prop where
  pos : match m.phase with
    | .idle => ∃ n : ℕ, m.index = n ∧ Left ids n rest ∧ n ≤ l.mni + 1
    | .ready it => ∃ (n : ℕ) (rest' : List It), m.index = n ∧ rest = it :: rest' ∧
        Exact l ids n it rest'
    | .kept it => ∃ n : ℕ, m.index = n ∧ Exact l ids n it rest
    | .eof => ∃ n : ℕ, m.index = n ∧ rest = [] ∧ Left ids n [] ∧ n ≤ l.mni + 1
  locks : m.locks = m.phase.holds
  counted : m.shown.length = m.nexts + match m.phase with
    | .kept _ => 1
    | _ => 0

theorem Landed.placed {f : Found} (h : Landed l ids rest f)
    (hcount : m.shown.length = m.nexts) : Placed l ids (m.goto f) rest := by
  cases h with
  | eof n hleft hle => exact ⟨⟨n, rfl, rfl, hleft, hle⟩, rfl, hcount⟩
  | ready n it rest hexact => exact ⟨⟨n, rest, rfl, rfl, hexact⟩, rfl, hcount⟩

/-- **What a step does.** -/
theorem step_cases (hs : step ids m act = some m') :
    (m.phase = .idle ∧ m' = m.goto (sysvipcProcStart ids m.index m.locks)) ∨
    (∃ it, m.phase = .ready it ∧
      (m' = m ∨ m' = { m with phase := .kept it, shown := m.shown ++ [it] })) ∨
    (∃ it, m.phase = .kept it ∧
      m' = { m.goto (sysvipcProcNext ids it m.index m.locks) with nexts := m.nexts + 1 }) ∨
    ((∃ it, m.phase = .ready it ∧
        m' = { m with phase := .idle, locks := sysvipcProcStop (some it) m.locks }) ∨
      m.phase = .eof ∧ m' = { m with phase := .idle, locks := sysvipcProcStop none m.locks }) := by
  cases act with
  | start =>
    simp only [step] at hs
    split at hs
    next hphase =>
      cases hs
      exact .inl ⟨hphase, rfl⟩
    · cases hs
  | «show» keep =>
    simp only [step] at hs
    split at hs
    next it hphase =>
      refine .inr (.inl ⟨it, hphase, ?_⟩)
      split at hs
      · cases hs
        exact .inr rfl
      · cases hs
        exact .inl rfl
    · cases hs
  | next =>
    simp only [step] at hs
    split at hs
    next it hphase =>
      cases hs
      exact .inr (.inr (.inl ⟨it, hphase, rfl⟩))
    · cases hs
  | stop =>
    simp only [step] at hs
    split at hs
    next it hphase =>
      cases hs
      exact .inr (.inr (.inr (.inl ⟨it, hphase, rfl⟩)))
    next hphase =>
      cases hs
      exact .inr (.inr (.inr (.inr ⟨hphase, rfl⟩)))
    · cases hs

/-- A step keeps the place, and what is shown with what is left. -/
theorem step_placed (hfiled : Filed l ids) (h : Placed l ids m rest)
    (hs : step ids m act = some m') :
    ∃ rest', Placed l ids m' rest' ∧ m'.shown ++ rest' = m.shown ++ rest := by
  obtain ⟨hpos, hlocks, hcount⟩ := h
  rcases step_cases hs with ⟨hphase, rfl⟩ | ⟨it, hphase, hm⟩ | ⟨it, hphase, rfl⟩ |
    ⟨it, hphase, rfl⟩ | ⟨hphase, rfl⟩
  · -- `start`
    simp only [hphase] at hpos hlocks hcount
    obtain ⟨n, hn, hleft, hle⟩ := hpos
    rw [hn, hlocks]
    exact ⟨rest, (start_landed hfiled hleft hle).placed hcount, rfl⟩
  · -- `show`
    rcases hm with rfl | rfl
    · exact ⟨rest, ⟨hpos, hlocks, hcount⟩, rfl⟩
    · simp only [hphase] at hpos hlocks hcount
      obtain ⟨n, rest', hn, rfl, hexact⟩ := hpos
      refine ⟨rest', ⟨⟨n, hn, hexact⟩, hlocks, ?_⟩, by simp⟩
      simp [hcount]
  · -- `next`
    simp only [hphase] at hpos hlocks hcount
    obtain ⟨n, hn, hexact⟩ := hpos
    rw [hn, hlocks]
    have hplaced : Placed l ids
        ({ m with nexts := m.nexts + 1 }.goto (sysvipcProcNext ids it n it.holds)) rest :=
      (next_landed hfiled hexact).placed hcount
    exact ⟨rest, hplaced, rfl⟩
  · -- `stop` after a line
    simp only [hphase] at hpos hlocks hcount
    obtain ⟨n, rest', hn, rfl, hexact⟩ := hpos
    refine ⟨it :: rest', ⟨⟨n, hn, hexact.here, by have := hexact.le; omega⟩, ?_, hcount⟩, rfl⟩
    dsimp only
    rw [hlocks]
    cases it <;> simp [sysvipcProcStop, ipcUnlock, Phase.holds, It.holds]
  · -- `stop` at the end
    simp only [hphase] at hpos hlocks hcount
    obtain ⟨n, hn, rfl, hleft, hle⟩ := hpos
    refine ⟨[], ⟨⟨n, hn, hleft, hle⟩, ?_, hcount⟩, rfl⟩
    dsimp only
    rw [hlocks]
    rfl

/-! ## A run -/

theorem opened_placed (ids : IpcIds) :
    Placed l ids .opened (.token :: lines ids.idr.ascending) :=
  ⟨⟨0, rfl, ⟨_, ids.idr.ahead_ascending, rfl⟩, Nat.zero_le _⟩, rfl, rfl⟩

theorem run_placed (hfiled : Filed l ids) (h : Run (step ids) .opened m) :
    ∃ rest, Placed l ids m rest ∧ m.shown ++ rest = .token :: lines ids.idr.ascending := by
  refine Run.inv (I := fun m => ∃ rest, Placed l ids m rest ∧
    m.shown ++ rest = .token :: lines ids.idr.ascending) h ⟨_, opened_placed ids, rfl⟩ ?_
  rintro m act m' ⟨rest, hplaced, hall⟩ hs
  obtain ⟨rest', hplaced', hsame⟩ := step_placed hfiled hplaced hs
  exact ⟨rest', hplaced', hsame.trans hall⟩

/-- Where a reader is who has just called `start` or `next`. -/
def Phase.at : List It → Phase
  | [] => .eof
  | it :: _ => .ready it

theorem Landed.phase {f : Found} (h : Landed l ids rest f) : (m.goto f).phase = .at rest := by
  cases h <;> rfl

/-- A line is kept, and `next` called. -/
theorem line_on (hfiled : Filed l ids) (h : Placed l ids m (it :: rest))
    (hphase : m.phase = .ready it) :
    ∃ m', Run (step ids) m m' ∧ Placed l ids m' rest ∧ m'.phase = .at rest ∧
      m'.shown = m.shown ++ [it] := by
  obtain ⟨hpos, hlocks, hcount⟩ := h
  simp only [hphase] at hpos hlocks hcount
  obtain ⟨n, rest', hn, hrest, hexact⟩ := hpos
  cases hrest
  have hshow : step ids m (.show true) =
      some { m with phase := .kept it, shown := m.shown ++ [it] } := by
    simp [step, hphase]
  have hlanded := next_landed hfiled hexact
  have hnext : step ids { m with phase := .kept it, shown := m.shown ++ [it] } .next =
      some { { m with shown := m.shown ++ [it] }.goto (sysvipcProcNext ids it n it.holds) with
        nexts := m.nexts + 1 } := by
    simp only [step, hn, hlocks]
    rfl
  have hplaced : Placed l ids
      ({ m with shown := m.shown ++ [it], nexts := m.nexts + 1 }.goto
        (sysvipcProcNext ids it n it.holds)) rest :=
    hlanded.placed (by simp [hcount])
  refine ⟨_, (RunIf.snoc .refl trivial hshow).snoc trivial hnext, hplaced, ?_, rfl⟩
  exact hlanded.phase (m := m)

/-- A reader who goes on gets the rest. -/
theorem reads_on (hfiled : Filed l ids) (h : Placed l ids m rest) (hphase : m.phase = .at rest) :
    ∃ m', Run (step ids) m m' ∧ m'.phase = .eof ∧ m'.shown = m.shown ++ rest := by
  induction rest generalizing m with
  | nil => exact ⟨m, .refl, hphase, (List.append_nil _).symm⟩
  | cons it rest ih =>
    obtain ⟨m₁, hrun₁, hplaced₁, hphase₁, hshown₁⟩ := line_on hfiled h hphase
    obtain ⟨m₂, hrun₂, hphase₂, hshown₂⟩ := ih hplaced₁ hphase₁
    exact ⟨m₂, hrun₁.trans hrun₂, hphase₂, by simp [hshown₂, hshown₁]⟩

/-- Also from between two reads, and from a line that has just been kept. -/
theorem reads_on_from (hfiled : Filed l ids) (h : Placed l ids m rest) :
    ∃ m', Run (step ids) m m' ∧ m'.phase = .eof ∧ m'.shown = m.shown ++ rest := by
  obtain ⟨hpos, hlocks, hcount⟩ := h
  cases hphase : m.phase with
  | idle =>
    simp only [hphase] at hpos hlocks hcount
    obtain ⟨n, hn, hleft, hle⟩ := hpos
    have hlanded := start_landed hfiled hleft hle
    have hstart : step ids m .start = some (m.goto (sysvipcProcStart ids n [])) := by
      simp only [step, hphase, hn, hlocks]
      rfl
    obtain ⟨m', hrun, hend⟩ := reads_on hfiled (hlanded.placed hcount) hlanded.phase
    exact ⟨m', Relation.ReflTransGen.head ⟨_, trivial, hstart⟩ hrun, hend⟩
  | ready it =>
    refine reads_on hfiled ⟨hpos, hlocks, hcount⟩ ?_
    simp only [hphase] at hpos
    obtain ⟨n, rest', hn, rfl, hexact⟩ := hpos
    exact hphase
  | kept it =>
    simp only [hphase] at hpos hlocks hcount
    obtain ⟨n, hn, hexact⟩ := hpos
    have hlanded := next_landed hfiled hexact
    have hnext : step ids m .next =
        some { m.goto (sysvipcProcNext ids it n it.holds) with nexts := m.nexts + 1 } := by
      simp only [step, hphase, hn, hlocks]
      rfl
    have hplaced : Placed l ids ({ m with nexts := m.nexts + 1 }.goto
        (sysvipcProcNext ids it n it.holds)) rest := hlanded.placed hcount
    obtain ⟨m', hrun, hend⟩ := reads_on hfiled hplaced hlanded.phase
    exact ⟨m', Relation.ReflTransGen.head ⟨_, trivial, hnext⟩ hrun, hend⟩
  | eof =>
    refine reads_on hfiled ⟨hpos, hlocks, hcount⟩ ?_
    simp only [hphase] at hpos
    obtain ⟨n, hn, rfl, -⟩ := hpos
    exact hphase

/-- **What a reader gets.**  However the reads are split, what has been kept is the
    beginning of the header and the objects, each once and in ascending order of their
    indices; the line at hand is the first one that is left, and at the end none is.
    `next` is called at most once for each line, the reader who goes on gets to the end,
    and the locks held are those of the line at hand, none between two reads. -/
theorem proc_complete (hfiled : Filed l ids) (h : Run (step ids) .opened m) :
    ∃ es, Ahead ids.idr.find 0 es ∧ (es.map Prod.snd).Nodup ∧
      (∃ rest, m.shown ++ rest = .token :: lines es ∧
        (∀ it, m.phase = .ready it → rest.head? = some it) ∧ (m.phase = .eof → rest = [])) ∧
      m.nexts ≤ es.length + 1 ∧
      (∃ m', Run (step ids) m m' ∧ m'.phase = .eof ∧ m'.shown = .token :: lines es) ∧
      m.locks = m.phase.holds := by
  obtain ⟨rest, hplaced, hall⟩ := run_placed hfiled h
  have hasc := ids.idr.ahead_ascending
  refine ⟨_, hasc, hfiled.nodup hasc, ⟨rest, hall, fun it hphase => ?_, fun hphase => ?_⟩, ?_, ?_,
    hplaced.locks⟩
  · have hpos := hplaced.pos
    simp only [hphase] at hpos
    obtain ⟨n, rest', -, rfl, -⟩ := hpos
    rfl
  · have hpos := hplaced.pos
    simp only [hphase] at hpos
    obtain ⟨n, -, hrest, -⟩ := hpos
    exact hrest
  · have hlength := congrArg List.length hall
    simp only [List.length_append, List.length_cons, lines, List.length_map] at hlength
    have hcount := hplaced.counted
    omega
  · rw [← hall]
    exact reads_on_from hfiled hplaced

/-- Two objects, at the indices 1 and 5; the line of the first is dropped once, and the
    reads end before each of them. -/
theorem proc_complete_sparse : ∃ m, Run (step (sparse.ids .shm)) .opened m ∧
    (m.shown = [.token, .obj 0, .obj 1] ∧ m.phase = .idle) ∧
    ∃ es, Ahead (sparse.ids .shm).idr.find 0 es ∧ (es.map Prod.snd).Nodup ∧
      (∃ rest, m.shown ++ rest = .token :: lines es ∧
        (∀ it, m.phase = .ready it → rest.head? = some it) ∧ (m.phase = .eof → rest = [])) ∧
      m.nexts ≤ es.length + 1 ∧
      (∃ m', Run (step (sparse.ids .shm)) m m' ∧ m'.phase = .eof ∧
        m'.shown = .token :: lines es) ∧
      m.locks = m.phase.holds := by
  obtain ⟨m, hm, hshown⟩ := exec_check (step (sparse.ids .shm)) .opened
    [.start, .show true, .next, .show false, .stop, .start, .show true, .next, .stop, .start,
      .show true, .next, .stop]
    (fun m => decide (m.shown = [.token, .obj 0, .obj 1] ∧ m.phase = .idle)) (by decide)
  exact ⟨m, hm, of_decide_eq_true hshown, proc_complete sparse_filed hm⟩

end DroidLkm.Ids.ProcIter
