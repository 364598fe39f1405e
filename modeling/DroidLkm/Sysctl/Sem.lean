/-
  kernel.sem — what a write leaves of the four limits.

  * `procDointvec items`: the kernel's `proc_dointvec` over a reading `items` of
    the text, which gives the numbers in their order and what is malformed among
    them;
  * `store_eq`: what is stored are the numbers before the first malformed one;
  * `proc_sem`: so a call of the entry stores them where the opened table points
    to, and where it fails one limit of the task's namespace is put back;
  * `AllOrNothing`: a write succeeds with all of its numbers, or nothing changes
    in any namespace;
  * `allOrNothing_iff`: when this is so, by the version and the namespace.
-/
import DroidLkm.Sysctl.Isolation

namespace DroidLkm.Sysctl

open Machine

/-! ## The parser -/

/-- The numbers of the text are stored one after another, up to the first item that
    is malformed, or to the last place. -/
def storeItems : List (Option ℤ) → List ℤ → List ℤ × ℤ
  | [], xs => (xs, 0)
  | _ :: _, [] => ([], 0)
  | none :: _, x :: xs => (x :: xs, -EINVAL)
  | some v :: is, _ :: xs => (v :: (storeItems is xs).1, (storeItems is xs).2)

/-- The numbers before the first item that is malformed. -/
def numbers : List (Option ℤ) → List ℤ
  | some v :: is => v :: numbers is
  | _ => []

/-- The numbers `vs` over the first places of `xs`. -/
def overlay : List ℤ → List ℤ → List ℤ
  | [], xs => xs
  | _ :: _, [] => []
  | v :: vs, _ :: xs => v :: overlay vs xs

variable {Buf : Type} {is : List (Option ℤ)} {vs xs : List ℤ} {items : Buf → List (Option ℤ)}

@[simp] theorem overlay_nil (vs : List ℤ) : overlay vs [] = [] := by cases vs <;> rfl

theorem length_storeItems (is : List (Option ℤ)) (xs : List ℤ) :
    (storeItems is xs).1.length = xs.length := by
  induction is generalizing xs with
  | nil => rfl
  | cons i is ih =>
    cases xs with
    | nil => rfl
    | cons x xs =>
      cases i with
      | none => rfl
      | some v => rw [storeItems, List.length_cons, List.length_cons, ih]

/-- **What is stored**, with or without an error. -/
theorem store_eq (is : List (Option ℤ)) (xs : List ℤ) :
    (storeItems is xs).1 = overlay (numbers is) xs ∧
      ((storeItems is xs).2 = 0 ↔ none ∉ is.take xs.length) := by
  induction is generalizing xs with
  | nil => simp [storeItems, numbers, overlay]
  | cons i is ih =>
    cases xs with
    | nil => cases i <;> simp [storeItems, numbers]
    | cons x xs =>
      cases i with
      | none => simp [storeItems, numbers, overlay, EINVAL]
      | some v =>
        obtain ⟨hfst, hsnd⟩ := ih xs
        simp only [storeItems, numbers, overlay, hfst, hsnd, List.length_cons, List.take_succ_cons,
          List.mem_cons, reduceCtorEq, false_or, and_self]

/-- `proc_dointvec`; a text without an item is refused. -/
def procDointvec (items : Buf → List (Option ℤ)) : Proc Buf where
  run _ _ write buf xs :=
    if write then
      if items buf = [] then (xs, buf, -EINVAL)
      else ((storeItems (items buf) xs).1, buf, (storeItems (items buf) xs).2)
    else (xs, buf, 0)
  length_run _ _ write buf xs := by
    split
    · split
      · rfl
      · exact length_storeItems _ xs
    · rfl
  read_run _ _ _ _ := rfl

/-! ## Numbers over numbers -/

theorem getD_overlay (vs : List ℤ) {i : ℕ} (hi : i < xs.length) :
    (overlay vs xs).getD i 0 = vs[i]?.getD (xs.getD i 0) := by
  induction xs generalizing vs i with
  | nil => cases hi
  | cons x xs ih =>
    cases vs with
    | nil => rfl
    | cons v vs =>
      cases i with
      | zero => rfl
      | succ i =>
        rw [overlay, List.getD_cons_succ, List.getD_cons_succ, List.getElem?_cons_succ,
          ih vs (Nat.lt_of_succ_lt_succ hi)]

/-- The numbers are in force over those of a vector. -/
theorem vec_overlay_iff (m m' : Cells ℤ) (a : ℤ) (n : ℕ) (vs : List ℤ) :
    m'.vec a 4 n = overlay vs (m.vec a 4 n) ↔
      ∀ i < n, m' (a + (4 : ℕ) * (i : ℕ)) = vs[i]?.getD (m (a + (4 : ℕ) * (i : ℕ))) := by
  induction n generalizing a vs with
  | zero => simp [Cells.vec]
  | succ n ih =>
    have hsucc : ∀ i : ℕ,
        a + ((4 : ℕ) : ℤ) + (4 : ℕ) * (i : ℕ) = a + (4 : ℕ) * ((i + 1 : ℕ) : ℤ) := by
      intro i
      push_cast
      ring
    have hcell : ∀ P : ℕ → Prop, (∀ i < n + 1, P i) ↔ P 0 ∧ ∀ i < n, P (i + 1) := by
      intro P
      refine ⟨fun h => ⟨h 0 (by omega), fun i hi => h (i + 1) (by omega)⟩, ?_⟩
      rintro ⟨hzero, hnext⟩ (_ | i) hi
      · exact hzero
      · exact hnext i (by omega)
    rw [hcell]
    cases vs with
    | nil =>
      have ih := ih (a + (4 : ℕ)) []
      simp only [hsucc, overlay] at ih
      simp only [Cells.vec, overlay, List.cons.injEq, ih]
      simp
    | cons v vs =>
      have ih := ih (a + (4 : ℕ)) vs
      simp only [hsucc] at ih
      simp only [Cells.vec, overlay, List.cons.injEq, ih]
      simp

/-- To store them there is to store as many as there are places. -/
theorem setVec_overlay (m : Cells ℤ) (a : ℤ) (n : ℕ) (vs : List ℤ) :
    m.setVec a 4 (overlay vs (m.vec a 4 n)) = m.setVec a 4 (vs.take n) := by
  induction n generalizing m a vs with
  | zero => simp [Cells.vec, Cells.setVec]
  | succ n ih =>
    cases vs with
    | nil => exact Cells.setVec_vec m a 4 (n + 1)
    | cons v vs =>
      have hrest : m.vec (a + (4 : ℕ)) 4 n = (m.set a v).vec (a + (4 : ℕ)) 4 n :=
        Cells.vec_congr (by decide) fun c hc _ => (Cells.set_ne m v (by omega)).symm
      simp only [Cells.vec, overlay, Cells.setVec, List.take_succ_cons]
      rw [hrest, ih]

namespace Kernel

/-- The kernel with this `proc_dointvec`. -/
def parsing (k : Kernel Buf) (items : Buf → List (Option ℤ)) : Kernel Buf :=
  { k with dointvec := procDointvec items }

variable {k : Kernel Buf} {s s₀ : Sys} {c : Call Buf} {buf : Buf}

/-! ## A write -/

/-- The address of one of the four limits of a namespace. -/
def semCtl (k : Kernel Buf) (ns : ℤ) (i : ℕ) : ℤ := ns + k.offsetof .semCtls + (4 : ℕ) * (i : ℕ)

/-- What of the text is stored at an address. -/
def semStored (k : Kernel Buf) (is : List (Option ℤ)) (c : Call Buf) : ℤ → Option ℤ :=
  Cells.storedAt (k.opened c.ns .sem).data 4 ((numbers is).take 4)

/-- A text is accepted: it has a number, none of the first four items is malformed,
    and what `sem_check_semmni` finds then is in its range. -/
structure Passes (k : Kernel Buf) (is : List (Option ℤ)) (semmni : ℤ) : Prop where
  nonempty : is ≠ []
  numbers : none ∉ is.take 4
  range : 0 ≤ semmni ∧ semmni ≤ k.ipcMni

/-- What `sem_check_semmni` finds once the numbers have been stored. -/
def semmniFound (k : Kernel Buf) (is : List (Option ℤ)) (s : Sys) (c : Call Buf) : ℤ :=
  (k.semStored is c (k.semCtl (k.target s c) 3)).getD (s.mem (k.semCtl (k.target s c) 3))

/-- The check and the rollback are on the namespace that the call is for. -/
theorem ipcNsOf_opened (k : Kernel Buf) (s : Sys) (c : Call Buf) :
    k.ipcNsOf (k.ipcData (k.taskNs s c.task) (k.opened c.ns .sem)) .semCtls = k.target s c := by
  unfold ipcNsOf ipcData opened target Entry.field Entry.table
  dsimp only
  split <;> omega

/-- The handler, by what `proc_dointvec` stores and returns. -/
theorem ipcSemDointvec_of {k : Kernel Buf} {tns ns ret : ℤ} {t : CtlTable} {m mem : Cells ℤ}
    {write : Bool} {buf buf' : Buf} (hns : k.ipcNsOf (k.ipcData tns t) .semCtls = ns)
    (happly : k.dointvec.apply 4 t m write buf = (mem, buf', ret)) :
    k.ipcSemDointvec tns t m write buf =
      let err := if ret = 0 then k.semCheckSemmni mem ns else ret
      if err ≠ 0 then ⟨mem.set (k.semmniAt ns) (m (k.semmniAt ns)), buf', err, none⟩
      else ⟨mem, buf', err, none⟩ := by
  subst hns
  unfold ipcSemDointvec
  rw [happly]

/-- **A write of the entry**, with or without an error. -/
theorem proc_sem (k : Kernel Buf) (items : Buf → List (Option ℤ)) (s : Sys)
    (he : c.entry = .sem) (hwrite : c.write = true) :
    let is := items c.buf
    let mem := s.mem.setVec (k.opened c.ns .sem).data 4 ((numbers is).take 4)
    let last := k.semmniAt (k.target s c)
    (Passes k is (k.semmniFound is s c) ∧ ((k.parsing items).proc s c).err = 0 ∧
        ((k.parsing items).proc s c).mem = mem) ∨
      (¬Passes k is (k.semmniFound is s c) ∧ ((k.parsing items).proc s c).err ≠ 0 ∧
        ((k.parsing items).proc s c).mem = mem.set last (s.mem last)) := by
  intro is mem last
  let ret := if is = [] then -EINVAL else
    (storeItems is (s.mem.vec (k.opened c.ns .sem).data 4 4)).2
  have hlen : (s.mem.vec (k.opened c.ns .sem).data 4 4).length = 4 := Cells.length_vec ..
  obtain ⟨hfst, hsnd⟩ := store_eq is (s.mem.vec (k.opened c.ns .sem).data 4 4)
  rw [hlen] at hsnd
  have happly : (procDointvec items).apply 4 (k.opened c.ns .sem) s.mem true c.buf =
      (mem, c.buf, ret) := by
    have hmax : (k.opened c.ns .sem).maxlen / 4 = 4 := by
      rw [opened_maxlen (f := .semCtls) rfl]
      rfl
    unfold Proc.apply procDointvec
    rw [hmax]
    dsimp only
    rw [if_pos rfl]
    by_cases hnil : is = []
    · have hmem : mem = s.mem := by simp only [mem, hnil, numbers, List.take_nil, Cells.setVec]
      rw [if_pos hnil, Cells.setVec_vec, hmem]
      simp only [ret, if_pos hnil]
    · rw [if_neg hnil, hfst, setVec_overlay]
      simp only [ret, if_neg hnil]
      rfl
  have hret : ret = 0 ↔ is ≠ [] ∧ none ∉ is.take 4 := by
    simp only [ret]
    split
    · next hnil => exact iff_of_false (by decide) fun h => h.1 hnil
    · next hne => exact hsnd.trans ⟨fun h => ⟨hne, h⟩, fun h => h.2⟩
  have hfound : mem (k.semCtl (k.target s c) 3) = k.semmniFound is s c :=
    Cells.setVec_eq (by decide) s.mem _ _ _
  have hproc : (k.parsing items).proc s c =
      let err := if ret = 0 then k.semCheckSemmni mem (k.target s c) else ret
      if err ≠ 0 then ⟨mem.set last (s.mem last), c.buf, err, none⟩
      else ⟨mem, c.buf, err, none⟩ := by
    unfold proc
    rw [he, hwrite]
    exact ipcSemDointvec_of (k := k.parsing items) (ipcNsOf_opened k s c) happly
  have hcheck : k.semCheckSemmni mem (k.target s c) =
      if k.semmniFound is s c < 0 ∨ k.ipcMni < k.semmniFound is s c then -ERANGE else 0 := by
    rw [← hfound]
    rfl
  rw [hproc, hcheck]
  by_cases hz : ret = 0
  · obtain ⟨hne, hnumbers⟩ := hret.1 hz
    by_cases hrange : k.semmniFound is s c < 0 ∨ k.ipcMni < k.semmniFound is s c
    · rw [if_pos hz, if_pos hrange]
      dsimp only
      rw [if_pos (show -ERANGE ≠ 0 by decide)]
      exact .inr ⟨fun h => by have := h.range; omega, show -ERANGE ≠ 0 by decide, rfl⟩
    · rw [if_pos hz, if_neg hrange]
      exact .inl ⟨⟨hne, hnumbers, by omega, by omega⟩, rfl, rfl⟩
  · rw [if_neg hz]
    dsimp only
    rw [if_pos hz]
    exact .inr ⟨fun h => hz (hret.2 ⟨h.nonempty, h.numbers⟩), hz, rfl⟩

/-! ## All or nothing -/

/-- A write succeeded, and all numbers of the text (as many as there are limits) are in
    force in the namespace that it was for, the last limit being in its range; or it
    failed, and in every namespace the limits are what they were. -/
def AllOrNothing (k : Kernel Buf) (items : Buf → List (Option ℤ)) (s : Sys) (c : Call Buf) :
    Prop :=
  let r := (k.parsing items).proc s c
  let limits := k.limit r.mem (k.target s c) .semCtls
  (r.err = 0 ∧ none ∉ (items c.buf).take 4 ∧
      limits = overlay (numbers (items c.buf)) (k.limit s.mem (k.target s c) .semCtls) ∧
      0 ≤ limits.getD 3 0 ∧ limits.getD 3 0 ≤ k.ipcMni) ∨
    (r.err ≠ 0 ∧ ∀ ns ∈ s.spaces, k.limit r.mem ns .semCtls = k.limit s.mem ns .semCtls)

/-- The numbers for the first `n` limits, before a malformed item, are those in force. -/
def Repeats (n : ℕ) (is : List (Option ℤ)) (xs : List ℤ) : Prop :=
  ∀ i < n, ∀ v, (numbers is)[i]? = some v → xs[i]? = some v

/-- What is stored at the limits, address by address: of a text that is accepted the
    numbers are at the limits they are for, or these have them already; of another one
    what is stored at a limit of a namespace, other than the one put back, is there
    already. -/
def ByAddress (k : Kernel Buf) (is : List (Option ℤ)) (s : Sys) (c : Call Buf) : Prop :=
  (Passes k is (k.semmniFound is s c) ∧ ∀ i < 4,
      let x := k.semCtl (k.target s c) i
      (k.semStored is c x).getD (s.mem x) = (numbers is)[i]?.getD (s.mem x)) ∨
    (¬Passes k is (k.semmniFound is s c) ∧ ∀ ns ∈ s.spaces, ∀ i < 4,
      let x := k.semCtl ns i
      x ≠ k.semmniAt (k.target s c) → ∀ v, k.semStored is c x = some v → s.mem x = v)

/-- The limits of a namespace are those at its addresses. -/
theorem limit_overlay_iff (k : Kernel Buf) (m m' : Cells ℤ) (ns : ℤ) (vs : List ℤ) :
    k.limit m' ns .semCtls = overlay vs (k.limit m ns .semCtls) ↔
      ∀ i < 4, m' (k.semCtl ns i) = vs[i]?.getD (m (k.semCtl ns i)) :=
  vec_overlay_iff m m' (ns + k.offsetof .semCtls) 4 vs

theorem limit_eq_iff (k : Kernel Buf) (m m' : Cells ℤ) (ns : ℤ) :
    k.limit m' ns .semCtls = k.limit m ns .semCtls ↔
      ∀ i < 4, m' (k.semCtl ns i) = m (k.semCtl ns i) :=
  limit_overlay_iff k m m' ns []

theorem limit_getD (k : Kernel Buf) (m : Cells ℤ) (ns : ℤ) {i : ℕ} (hi : i < 4) :
    (k.limit m ns .semCtls).getD i 0 = m (k.semCtl ns i) :=
  Cells.vec_getD hi 0

/-- A cell is what it was if what is stored there is. -/
theorem getD_eq_iff {o : Option ℤ} {x : ℤ} : o.getD x = x ↔ ∀ v, o = some v → x = v := by
  cases o with
  | none => simp
  | some v => simp [eq_comm]

/-- **A write, address by address.** -/
theorem allOrNothing_byAddress (k : Kernel Buf) (items : Buf → List (Option ℤ)) (s : Sys)
    (he : c.entry = .sem) (hwrite : c.write = true) :
    AllOrNothing k items s c ↔ ByAddress k (items c.buf) s c := by
  have hcell : ∀ x, s.mem.setVec (k.opened c.ns .sem).data 4 ((numbers (items c.buf)).take 4) x =
      (k.semStored (items c.buf) c x).getD (s.mem x) := Cells.setVec_eq (by decide) _ _ _
  unfold AllOrNothing ByAddress
  dsimp only
  rcases proc_sem k items s he hwrite with ⟨hpass, herr, hmem⟩ | ⟨hno, herr, hmem⟩
  · have hsemmni : (k.limit ((k.parsing items).proc s c).mem (k.target s c) .semCtls).getD 3 0 =
        k.semmniFound (items c.buf) s c := by
      rw [hmem, limit_getD k _ _ (by decide)]
      exact hcell _
    rw [limit_overlay_iff, hsemmni, hmem]
    simp only [hcell]
    refine ⟨?_, ?_⟩
    · rintro (⟨-, -, hall, -⟩ | ⟨hne, -⟩)
      · exact .inl ⟨hpass, hall⟩
      · exact absurd herr hne
    · rintro (⟨-, hall⟩ | ⟨hno, -⟩)
      · exact .inl ⟨herr, hpass.numbers, hall, hpass.range⟩
      · exact absurd hpass hno
  · have hput : ∀ x, ((k.parsing items).proc s c).mem x = s.mem x ↔
        (x ≠ k.semmniAt (k.target s c) → ∀ v, k.semStored (items c.buf) c x = some v →
          s.mem x = v) := by
      intro x
      rw [hmem]
      by_cases hx : x = k.semmniAt (k.target s c)
      · rw [hx, Cells.set_self]
        exact iff_of_true rfl fun h => absurd rfl h
      · rw [Cells.set_ne _ _ hx, hcell, getD_eq_iff]
        exact ⟨fun h _ => h, fun h => h hx⟩
    simp only [limit_eq_iff, hput]
    refine ⟨?_, ?_⟩
    · rintro (⟨hzero, -⟩ | ⟨-, hall⟩)
      · exact absurd hzero herr
      · exact .inr ⟨hno, hall⟩
    · rintro (⟨hpass, -⟩ | ⟨-, hall⟩)
      · exact absurd hpass hno
      · exact .inr ⟨herr, hall⟩

/-! ## The condition -/

/-- The namespace whose limits the opened table has. -/
def tableNs (k : Kernel Buf) (c : Call Buf) : ℤ := if k.PerNs then c.ns else k.initIpcNs

/-- A write is all or nothing.  Where the table has the limits of the namespace that the
    call is for: the text is accepted, or it repeats the first three.  Below 6.1 in another
    namespace than `init_ipc_ns`, where it has those of `init_ipc_ns`: the text repeats
    what is in force in the own namespace or, if it is refused, in `init_ipc_ns`.  Where
    the layout has another offset than the build: as the addresses fall. -/
def Whole (k : Kernel Buf) (is : List (Option ℤ)) (s : Sys) (c : Call Buf) : Prop :=
  let own := k.limit s.mem (k.target s c) .semCtls
  if k.layoutOff .semCtls ≠ k.offsetof .semCtls then ByAddress k is s c
  else if k.PerNs ∨ k.taskNs s c.task = k.initIpcNs then
    Passes k is ((overlay (numbers is) own).getD 3 0) ∨ Repeats 3 is own
  else
    (Passes k is (own.getD 3 0) ∧ Repeats 4 is own) ∨
      (¬Passes k is (own.getD 3 0) ∧ Repeats 4 is (k.limit s.mem k.initIpcNs .semCtls))

variable {is : List (Option ℤ)} {m : Cells ℤ} {ns : ℤ} {i n : ℕ}

theorem repeats_iff (k : Kernel Buf) (m : Cells ℤ) (ns : ℤ) (hn : n ≤ 4) :
    Repeats n is (k.limit m ns .semCtls) ↔
      ∀ i < n, ∀ v, (numbers is)[i]? = some v → m (k.semCtl ns i) = v := by
  have hcell : ∀ i < n, (k.limit m ns .semCtls)[i]? = some (m (k.semCtl ns i)) := by
    intro i hi
    have hlen : i < (k.limit m ns .semCtls).length := by
      rw [length_limit]
      exact lt_of_lt_of_le hi hn
    rw [← limit_getD k m ns (by omega), List.getD_eq_getElem?_getD, List.getElem?_eq_getElem hlen,
      Option.getD_some]
  refine forall₂_congr fun i hi => ?_
  rw [hcell i hi]
  simp only [Option.some.injEq]

/-- The data of the table, where the layout is that of the build. -/
theorem opened_data (hoff : k.layoutOff .semCtls = k.offsetof .semCtls) (c : Call Buf) :
    (k.opened c.ns .sem).data = k.tableNs c + k.offsetof .semCtls := by
  rw [← hoff]
  rfl

/-- Each number is stored at the limit that it is for, in the namespace of the table. -/
theorem semStored_table (hoff : k.layoutOff .semCtls = k.offsetof .semCtls)
    (is : List (Option ℤ)) (hi : i < 4) :
    k.semStored is c (k.semCtl (k.tableNs c) i) = (numbers is)[i]? := by
  unfold semStored semCtl
  rw [opened_data hoff, Cells.storedAt_place (by decide), List.getElem?_take_of_lt hi]

/-- And nothing in another one. -/
theorem semStored_clear (hoff : k.layoutOff .semCtls = k.offsetof .semCtls)
    (is : List (Option ℤ)) (hclear : k.Clear (k.tableNs c) ns) (hi : i < 4) :
    k.semStored is c (k.semCtl ns i) = none := by
  have hin := k.inside .semCtls
  have hlen : ((numbers is).take 4).length ≤ 4 := List.length_take_le ..
  have hbytes : Field.semCtls.bytes = 16 := rfl
  unfold semStored
  rw [opened_data hoff]
  refine Cells.storedAt_apart (by decide) ?_
  unfold semCtl
  unfold Clear at hclear
  omega

/-- The table of the namespace that the call is for. -/
theorem byAddress_own (hoff : k.layoutOff .semCtls = k.offsetof .semCtls) (hw : k.Apart s)
    (hc : c.ns ∈ s.spaces) (hown : k.tableNs c = k.target s c) :
    ByAddress k is s c ↔
      Passes k is ((overlay (numbers is) (k.limit s.mem (k.target s c) .semCtls)).getD 3 0) ∨
        Repeats 3 is (k.limit s.mem (k.target s c) .semCtls) := by
  have hlive := hw.target hc
  have hplace : ∀ i < 4, k.semStored is c (k.semCtl (k.target s c) i) = (numbers is)[i]? :=
    fun _ hi => hown ▸ semStored_table hoff is hi
  have hlast : k.semmniAt (k.target s c) = k.semCtl (k.target s c) 3 := by
    rw [semmniAt, hoff]
    rfl
  have hfound : k.semmniFound is s c =
      (overlay (numbers is) (k.limit s.mem (k.target s c) .semCtls)).getD 3 0 := by
    rw [getD_overlay _ (by rw [length_limit]; decide), limit_getD k _ _ (by decide), semmniFound,
      hplace 3 (by decide)]
  have hother : ∀ ns ∈ s.spaces, ns ≠ k.target s c → ∀ i < 4,
      k.semStored is c (k.semCtl ns i) = none := by
    intro ns hns hne i hi
    refine semStored_clear hoff is ?_ hi
    rw [hown]
    exact hw.clear _ hlive _ hns (Ne.symm hne)
  have hkept : (∀ ns ∈ s.spaces, ∀ i < 4, k.semCtl ns i ≠ k.semmniAt (k.target s c) →
      ∀ v, k.semStored is c (k.semCtl ns i) = some v → s.mem (k.semCtl ns i) = v) ↔
        Repeats 3 is (k.limit s.mem (k.target s c) .semCtls) := by
    rw [repeats_iff k _ _ (by decide), hlast]
    constructor
    · intro h i hi v hv
      refine h _ hlive i (by omega) ?_ v ((hplace i (by omega)).trans hv)
      unfold semCtl
      omega
    · intro h ns hns i hi hne v hv
      by_cases heq : ns = k.target s c
      · subst heq
        have hthree : i ≠ 3 := fun h3 => hne (by rw [h3])
        exact h i (by omega) v ((hplace i hi).symm.trans hv)
      · rw [hother ns hns heq i hi] at hv
        cases hv
  have hforce : ∀ i < 4, (k.semStored is c (k.semCtl (k.target s c) i)).getD
      (s.mem (k.semCtl (k.target s c) i)) =
        (numbers is)[i]?.getD (s.mem (k.semCtl (k.target s c) i)) :=
    fun i hi => by rw [hplace i hi]
  unfold ByAddress
  dsimp only
  rw [hkept, hfound]
  constructor
  · rintro (⟨hpass, -⟩ | ⟨-, hrep⟩)
    · exact .inl hpass
    · exact .inr hrep
  · rintro (hpass | hrep)
    · exact .inl ⟨hpass, hforce⟩
    · by_cases hpass : Passes k is
          ((overlay (numbers is) (k.limit s.mem (k.target s c) .semCtls)).getD 3 0)
      · exact .inl ⟨hpass, hforce⟩
      · exact .inr ⟨hpass, hrep⟩

/-- The table of another one: nothing is stored where the call is for. -/
theorem byAddress_other (hoff : k.layoutOff .semCtls = k.offsetof .semCtls) (hw : k.Apart s)
    (hc : c.ns ∈ s.spaces) (hlive : k.tableNs c ∈ s.spaces) (hne : k.tableNs c ≠ k.target s c) :
    ByAddress k is s c ↔
      (Passes k is ((k.limit s.mem (k.target s c) .semCtls).getD 3 0) ∧
          Repeats 4 is (k.limit s.mem (k.target s c) .semCtls)) ∨
        (¬Passes k is ((k.limit s.mem (k.target s c) .semCtls).getD 3 0) ∧
          Repeats 4 is (k.limit s.mem (k.tableNs c) .semCtls)) := by
  have hother : ∀ ns ∈ s.spaces, ns ≠ k.tableNs c → ∀ i < 4,
      k.semStored is c (k.semCtl ns i) = none :=
    fun ns hns hneq _ hi => semStored_clear hoff is (hw.clear _ hlive _ hns (Ne.symm hneq)) hi
  have htarget := hother _ (hw.target hc) (Ne.symm hne)
  have hfound : k.semmniFound is s c = (k.limit s.mem (k.target s c) .semCtls).getD 3 0 := by
    rw [limit_getD k _ _ (by decide), semmniFound, htarget 3 (by decide), Option.getD_none]
  have hforce : (∀ i < 4, (k.semStored is c (k.semCtl (k.target s c) i)).getD
        (s.mem (k.semCtl (k.target s c) i)) =
          (numbers is)[i]?.getD (s.mem (k.semCtl (k.target s c) i))) ↔
      Repeats 4 is (k.limit s.mem (k.target s c) .semCtls) := by
    rw [repeats_iff k _ _ (le_refl 4)]
    refine forall₂_congr fun i hi => ?_
    rw [htarget i hi, Option.getD_none, eq_comm, getD_eq_iff]
  have hkept : (∀ ns ∈ s.spaces, ∀ i < 4, k.semCtl ns i ≠ k.semmniAt (k.target s c) →
      ∀ v, k.semStored is c (k.semCtl ns i) = some v → s.mem (k.semCtl ns i) = v) ↔
        Repeats 4 is (k.limit s.mem (k.tableNs c) .semCtls) := by
    rw [repeats_iff k _ _ (le_refl 4)]
    have hin := k.inside .semCtls
    have hbytes : Field.semCtls.bytes = 16 := rfl
    have hclear := hw.clear _ hlive _ (hw.target hc) hne
    constructor
    · intro h i hi v hv
      refine h _ hlive i hi ?_ v ((semStored_table hoff is hi).trans hv)
      unfold semCtl semmniAt
      unfold Clear at hclear
      omega
    · intro h ns hns i hi _ v hv
      by_cases heq : ns = k.tableNs c
      · subst heq
        exact h i hi v ((semStored_table hoff is hi).symm.trans hv)
      · rw [hother ns hns heq i hi] at hv
        cases hv
  unfold ByAddress
  dsimp only
  rw [hkept, hfound, hforce]

theorem apart_parsing : (k.parsing items).Apart s ↔ k.Apart s :=
  ⟨fun h => ⟨h.init, h.host, h.tasks, h.clear⟩, fun h => ⟨h.init, h.host, h.tasks, h.clear⟩⟩

/-- **kernel.sem.**  In every state that any run reaches, and for every text, a write is
    all or nothing if and only if the condition holds. -/
theorem allOrNothing_iff (k : Kernel Buf) (items : Buf → List (Option ℤ)) (h₀ : k.Apart s₀)
    (hrun : Run (k.parsing items).step s₀ s) (hc : c.ns ∈ s.spaces) (he : c.entry = .sem)
    (hwrite : c.write = true) : AllOrNothing k items s c ↔ Whole k (items c.buf) s c := by
  have hw : k.Apart s := apart_parsing.1 (hrun.inv (apart_parsing.2 h₀) fun _ _ _ h => step_apart h)
  rw [allOrNothing_byAddress k items s he hwrite]
  unfold Whole
  dsimp only
  split
  · exact Iff.rfl
  next hoff =>
  rw [not_not] at hoff
  split
  · next hown =>
    refine byAddress_own hoff hw hc ?_
    unfold tableNs target
    split
    · rfl
    · next hver => exact (hown.resolve_left hver).symm
  · next hother =>
    rw [not_or] at hother
    have htable : k.tableNs c = k.initIpcNs := if_neg hother.1
    have htarget : k.target s c = k.taskNs s c.task := if_neg hother.1
    rw [← htable]
    refine byAddress_other hoff hw hc ?_ ?_
    · rw [htable]
      exact hw.init
    · rw [htable, htarget]
      exact Ne.symm hother.2

/-! ## A malformed text -/

/-- A decimal number without a sign. -/
def decimal (w : List Char) : Option ℤ :=
  if w ≠ [] ∧ w.all Char.isDigit then
    some (w.foldl (fun n c => 10 * n + (c.toNat - '0'.toNat : ℕ)) (0 : ℤ))
  else none

/-- The items of a text with one blank between them: decimal numbers, or not. -/
def words (text : List Char) : List (Option ℤ) :=
  (text.splitOn ' ').map fun w =>
    match w with
    | '-' :: w => (decimal w).map fun n => -n
    | w => decimal w

/-- A kernel of a version, whose other handlers do nothing. -/
def textKernel (versionCode : ℕ) : Kernel (List Char) :=
  let idle : Proc (List Char) := ⟨fun _ _ _ buf xs => (xs, buf, 0), fun _ _ _ _ _ => rfl,
    fun _ _ _ _ => rfl⟩
  { ofVersion versionCode with
    dointvec := idle
    dointvecMinmax := idle
    doulongvecMinmax := idle }

/-- A write by the first task, the host's, or by the second, which is in a namespace of
    its own. -/
def textWrite (task : ℕ) (text : String) : Call (List Char) :=
  ⟨task, 8192, .sem, true, text.toList⟩

theorem clear_text (versionCode : ℕ) : (textKernel versionCode).Clear 8192 4096 :=
  show (8192 : ℤ) + (52 : ℕ) ≤ 4096 ∨ (4096 : ℤ) + (52 : ℕ) ≤ 8192 by decide

/-- In 5.10 the host's task writes all four. -/
theorem allOrNothing_host : AllOrNothing (textKernel (KERNEL_VERSION 5 10 0)) words
    (textKernel (KERNEL_VERSION 5 10 0)).contained (textWrite 0 "250 32000 32 128") := by
  have hrun := run_contained (k := (textKernel (KERNEL_VERSION 5 10 0)).parsing words)
    (clear_text (KERNEL_VERSION 5 10 0))
  refine (allOrNothing_iff _ words (hostOnly_wf rfl).toApart hrun.run List.mem_cons_self rfl
    rfl).2 ?_
  unfold Whole
  dsimp only
  rw [if_neg (by decide), if_pos (by decide)]
  exact .inl ⟨by decide, by decide, by decide⟩

/-- The first limit is changed by a write that fails; and below 6.1 a write by a task in
    another namespace is accepted by the limits of that one, and changes those of
    `init_ipc_ns`. -/
theorem sem_half_written :
    ¬AllOrNothing (textKernel (KERNEL_VERSION 6 1 0)) words
        (textKernel (KERNEL_VERSION 6 1 0)).contained (textWrite 1 "250 x") ∧
      ¬AllOrNothing (textKernel (KERNEL_VERSION 5 10 0)) words
        (textKernel (KERNEL_VERSION 5 10 0)).contained
        (textWrite 1 "32000 1024000000 500 -1") := by
  unfold AllOrNothing
  decide

end Kernel

end DroidLkm.Sysctl
