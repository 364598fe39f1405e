/-
  User namespaces and what they own — the owner may be gone.

  An ipc namespace keeps its owner; a pid namespace does not, and stays
  registered when the last credentials of its owner are gone.

  * `Covered`: the count of a user namespace covers the objects that hold a
    reference on it;
  * `Inv`, `step_inv`: what a step preserves, if it does not give back the last
    reference on the owner of a namespace that is registered without one;
  * `owner_alive`: in a run of such steps no freed owner is handed over;
  * `owner_freed`: a run in which one is.
-/
import DroidLkm.Lib.Census
import DroidLkm.Users.Heap

namespace DroidLkm.Users

open Machine

namespace State

variable {s s' : State} {a b t u v n : ℕ} {o o' : Obj} {x : Option Obj} {act : Act}

/-- How many objects hold a reference on a user namespace. -/
def holders (s : State) (u : ℕ) : ℤ :=
  Census.count (fun o : Obj => o.holds == some u) s.next s.heap

/-- The reference on `init_user_ns` that is never given back. -/
def permanent (u : ℕ) : ℤ := if u = 0 then 1 else 0

/-- The owner that a registered object names without a reference. -/
def bare (s : State) (a : ℕ) : Option ℕ := (s.heap a).bind Obj.bare

/-- 1 at `u`. -/
def tok (u w : ℕ) : ℤ := if w = u then 1 else 0

/-- 1 if the object holds a reference on `u`. -/
def hold (x : Option Obj) (u : ℕ) : ℤ := Census.ind (fun o : Obj => o.holds == some u) x

theorem hold_some (o : Obj) (u : ℕ) : hold (some o) u = if o.holds = some u then 1 else 0 := by
  simp [hold, Census.ind]

theorem hold_eq_tok (ho : o.holds = some u) (w : ℕ) : hold (some o) w = tok u w := by
  rw [hold_some, tok, ho]
  simp only [Option.some.injEq, eq_comm]

theorem holders_nonneg (s : State) (u : ℕ) : 0 ≤ s.holders u := Census.count_nonneg _ _ _

theorem holders_set (ha : a < s.next) (u : ℕ) :
    (s.set a x).holders u = s.holders u + (hold x u - hold (s.heap a) u) :=
  Census.count_update ha

theorem holders_alloc (u : ℕ) : (s.alloc o).holders u = s.holders u + hold (some o) u :=
  Census.count_push

theorem count_set (u : ℕ) : (s.set a x).count u = if u = a then refs x else s.count u := by
  simp only [count, set, Function.update_apply]
  split <;> rfl

theorem count_alloc (u : ℕ) :
    (s.alloc o).count u = if u = s.next then refs (some o) else s.count u :=
  count_set u

theorem bare_set (b : ℕ) : (s.set a x).bare b = if b = a then x.bind Obj.bare else s.bare b := by
  simp only [bare, set, Function.update_apply]
  split <;> rfl

theorem bare_alloc (b : ℕ) : (s.alloc o).bare b = if b = s.next then o.bare else s.bare b :=
  bare_set b

/-! ## Counting up and down -/

/-- The objects, but for the counts in user namespaces, and the log stay. -/
structure Counted (s s' : State) : Prop where
  next : s'.next = s.next
  kernelOwned : s'.kernelOwned = s.kernelOwned
  uses : s'.uses = s.uses
  absent : ∀ b, s.heap b = none → s'.heap b = none
  holders : ∀ u, s'.holders u = s.holders u
  bare : ∀ b, s'.bare b = s.bare b

theorem Counted.refl (s : State) : Counted s s :=
  ⟨rfl, rfl, rfl, fun _ h => h, fun _ => rfl, fun _ => rfl⟩

theorem counted_set {p : Option ℕ} {c c' : ℕ} (hb : ∀ b, s.next ≤ b → s.heap b = none)
    (hv : s.heap v = some (.userNs p c)) : Counted s (s.set v (some (.userNs p c'))) := by
  have hlt : v < s.next := by
    by_contra hge
    rw [hb v (Nat.le_of_not_lt hge)] at hv
    cases hv
  have hold_eq : ∀ u, hold (some (.userNs p c')) u = hold (some (.userNs p c)) u := by
    intro u
    rw [hold_some, hold_some]
    rfl
  refine ⟨rfl, rfl, rfl, ?_, ?_, ?_⟩
  · intro b hnone
    refine (Function.update_of_ne ?_ _ _).trans hnone
    rintro rfl
    rw [hv] at hnone
    cases hnone
  · intro u
    rw [holders_set hlt, hv, hold_eq, Int.sub_self, Int.add_zero]
  · intro b
    rw [bare_set]
    split
    · rename_i hba
      rw [hba, bare, hv]
      rfl
    · rfl

theorem getUserNs_counted (hb : ∀ b, s.next ≤ b → s.heap b = none) (v : ℕ) :
    Counted s (s.getUserNs v) := by
  unfold getUserNs
  split
  · rename_i p c hv
    exact counted_set hb hv
  · exact Counted.refl s

theorem putUserNs_counted (hb : ∀ b, s.next ≤ b → s.heap b = none) (v : ℕ) :
    Counted s (s.putUserNs v) := by
  unfold putUserNs
  split
  · rename_i p c hv
    exact counted_set hb hv
  · exact Counted.refl s

theorem count_getUserNs (h : s.count v ≠ 0) (u : ℕ) :
    (s.getUserNs v).count u = s.count u + if u = v then 1 else 0 := by
  unfold getUserNs
  split
  · rename_i p c hv
    rw [count_set]
    split
    · rename_i hu
      rw [hu, count, hv]
      rfl
    · rfl
  · rename_i hv
    refine absurd ?_ h
    unfold count refs
    split
    · rename_i p c heq
      exact absurd heq (hv p c)
    · rfl

theorem count_putUserNs (u : ℕ) :
    (s.putUserNs v).count u = s.count u - if u = v then 1 else 0 := by
  unfold putUserNs
  split
  · rename_i p c hv
    rw [count_set]
    split
    · rename_i hu
      rw [hu, count, hv]
      rfl
    · rfl
  · rename_i hv
    split
    · rename_i hu
      have hzero : s.count u = 0 := by
        rw [hu]
        unfold count refs
        split
        · rename_i p c heq
          exact absurd heq (hv p c)
        · rfl
      rw [hzero]
    · rfl

/-! ## The invariant -/

/-- The counts of user namespaces cover the references on them, with `d` to
    spare; what is named without a reference is there; so was what was used. -/
structure Inv (s : State) (d : ℕ → ℤ) : Prop where
  bounded : ∀ a, s.next ≤ a → s.heap a = none
  covered : ∀ u, s.holders u + permanent u + d u ≤ s.count u
  safe : ∀ a u, s.bare a = some u → s.count u ≠ 0
  unfreed : ∀ w ∈ s.uses, w.freed = false

variable {d d' : ℕ → ℤ}

theorem Inv.lt (hi : Inv s d) (ha : s.heap a = some o) : a < s.next := by
  by_contra hge
  rw [hi.bounded a (Nat.le_of_not_lt hge)] at ha
  cases ha

theorem Inv.mono (hi : Inv s d) (hd : ∀ u, d' u ≤ d u) : Inv s d' := by
  refine ⟨hi.bounded, ?_, hi.safe, hi.unfreed⟩
  intro u
  have := hi.covered u
  have := hd u
  omega

theorem permanent_nonneg (u : ℕ) : 0 ≤ permanent u := by
  unfold permanent
  split <;> omega

/-- What an object holds a reference on is there. -/
theorem Inv.held (hi : Inv s d) (hd : 0 ≤ d u) (ha : s.heap a = some o)
    (ho : o.holds = some u) : s.count u ≠ 0 := by
  have hle := Census.ind_le_count (p := fun o : Obj => o.holds == some u) (f := s.heap) (hi.lt ha)
  have hone : hold (s.heap a) u = 1 := by rw [ha, hold_some, if_pos ho]
  have hcov := hi.covered u
  have hperm := permanent_nonneg u
  unfold hold at hone
  unfold holders at hcov
  omega

/-- A reference is taken on a user namespace that is there. -/
theorem Inv.get (hi : Inv s d) (hv : s.count v ≠ 0) :
    Inv (s.getUserNs v) fun u => d u + tok v u := by
  have hc := getUserNs_counted hi.bounded v
  refine ⟨?_, ?_, ?_, ?_⟩
  · intro a ha
    rw [hc.next] at ha
    exact hc.absent a (hi.bounded a ha)
  · intro u
    have hcov := hi.covered u
    rw [hc.holders, count_getUserNs hv, tok]
    split <;> omega
  · intro a u hau
    rw [hc.bare] at hau
    have hpos := hi.safe a u hau
    rw [count_getUserNs hv]
    omega
  · rw [hc.uses]
    exact hi.unfreed

/-- A spare reference is given back, if not the last one on an owner. -/
theorem Inv.put (hi : Inv s fun u => d u + tok v u) (hd : 0 ≤ d v)
    (hlast : s.count v = 1 → ∀ b, s.bare b ≠ some v) : Inv (s.putUserNs v) d := by
  have hc := putUserNs_counted hi.bounded v
  refine ⟨?_, ?_, ?_, ?_⟩
  · intro a ha
    rw [hc.next] at ha
    exact hc.absent a (hi.bounded a ha)
  · intro u
    have hcov := hi.covered u
    have hperm := permanent_nonneg u
    have hnn := holders_nonneg s u
    rw [hc.holders, count_putUserNs]
    simp only [tok] at hcov
    split
    · rename_i hu
      subst hu
      rw [if_pos rfl] at hcov
      omega
    · rename_i hu
      rw [if_neg hu] at hcov
      omega
  · intro a u hau
    rw [hc.bare] at hau
    have hpos := hi.safe a u hau
    rw [count_putUserNs]
    split
    · rename_i hu
      subst hu
      have hne : s.count u ≠ 1 := fun h1 => hlast h1 a hau
      omega
    · exact hpos
  · rw [hc.uses]
    exact hi.unfreed

/-- An object is written; the count in it stays. -/
theorem Inv.set (hi : Inv s d) (ha : s.heap a = some o) (hr : refs x = refs (some o))
    (hb : ∀ u, x.bind Obj.bare = some u → s.count u ≠ 0) :
    Inv (s.set a x) fun u => d u + hold (some o) u - hold x u := by
  have hcount : ∀ u, (s.set a x).count u = s.count u := by
    intro u
    rw [count_set]
    split
    · rename_i hu
      rw [hu, hr, count, ha]
    · rfl
  have hlt := hi.lt ha
  refine ⟨?_, ?_, ?_, hi.unfreed⟩
  · intro b hb
    refine (Function.update_of_ne ?_ _ _).trans (hi.bounded b hb)
    exact Nat.ne_of_gt (Nat.lt_of_lt_of_le hlt hb)
  · intro u
    have hcov := hi.covered u
    rw [holders_set hlt, hcount, ha]
    omega
  · intro b u hbu
    rw [hcount]
    rw [bare_set] at hbu
    split at hbu
    · exact hb u hbu
    · exact hi.safe b u hbu

/-- A new object, with a count of its own or without. -/
theorem Inv.alloc (hi : Inv s d) (hb : ∀ u, o.bare = some u → s.count u ≠ 0) :
    Inv (s.alloc o) fun u =>
      d u + (if u = s.next then (refs (some o) : ℤ) else 0) - hold (some o) u := by
  have hfree : s.count s.next = 0 := by
    rw [count, hi.bounded _ (Nat.le_refl _)]
    rfl
  refine ⟨?_, ?_, ?_, hi.unfreed⟩
  · intro b hb
    replace hb : s.next + 1 ≤ b := hb
    refine (Function.update_of_ne ?_ _ _).trans (hi.bounded b (by omega))
    omega
  · intro u
    have hcov := hi.covered u
    rw [holders_alloc, count_alloc]
    split
    · rename_i hu
      subst hu
      omega
    · omega
  · intro b u hbu
    rw [bare_alloc] at hbu
    have hpos : s.count u ≠ 0 := by
      split at hbu
      · exact hb u hbu
      · exact hi.safe b u hbu
    rw [count_alloc]
    split
    · rename_i hu
      rw [hu] at hpos
      exact absurd hfree hpos
    · exact hpos

theorem Inv.use (hi : Inv s d) {site : Site} (hu : s.count u ≠ 0) : Inv (s.use site u) d := by
  refine ⟨hi.bounded, hi.covered, hi.safe, ?_⟩
  intro w hw
  rcases List.mem_cons.1 hw with rfl | hw
  · exact decide_eq_false hu
  · exact hi.unfreed w hw

/-! ## The step lemma -/

/-- Nothing to spare. -/
def nothing : ℕ → ℤ := fun _ => 0

/-- The user namespace a step gives a reference back of. -/
def gives (s : State) : Act → Option ℕ
  | .exit t | .setUser t _ => (s.heap t).bind Obj.holds
  | .closeFile f => (s.heap f).bind Obj.holds
  | .freeUser m => (s.heap m).bind Obj.holds
  | .putIpc n =>
    match s.heap n with
    | some (.ipcNs u c) => if c = 1 then some u else none
    | _ => none
  | _ => none

/-- The last reference on a user namespace is given back only when no object
    that is registered without a reference, or is about to be, names it. -/
def OwnerKept (s : State) (act : Act) : Prop :=
  ∀ u, s.gives act = some u → s.count u = 1 →
    (∀ b, s.bare b ≠ some u) ∧ ((∃ n, act = .putIpc n) → s.kernelOwned = false)

theorem getUserNs_task (h : s.heap t = some (.task u)) :
    (s.getUserNs v).heap t = some (.task u) := by
  unfold getUserNs
  split
  · rename_i p c hv
    refine (Function.update_of_ne ?_ _ _).trans h
    rintro rfl
    rw [hv] at h
    cases h
  · exact h

/-- A task goes into a new user namespace. -/
theorem Inv.newUser (hi : Inv s nothing) (ht : s.heap t = some (.task u)) :
    Inv ((s.alloc (.userNs (some u) 1)).set t (some (.task s.next))) nothing := by
  have halloc := hi.alloc (o := .userNs (some u) 1) (by rintro w ⟨⟩)
  have hkeep : (s.alloc (.userNs (some u) 1)).heap t = some (.task u) :=
    (Function.update_of_ne (Nat.ne_of_lt (hi.lt ht)) _ _).trans ht
  refine (halloc.set (x := some (.task s.next)) hkeep rfl (by rintro w ⟨⟩)).mono ?_
  intro w
  rw [hold_eq_tok (u := u) rfl, hold_eq_tok (u := u) rfl, hold_eq_tok (u := s.next) rfl]
  simp only [nothing, tok, refs]
  split <;> split <;> omega

/-- A task takes other credentials. -/
theorem Inv.setUser (hi : Inv s nothing) (ht : s.heap t = some (.task u)) (hne : v ≠ u)
    (hv : s.count v ≠ 0) (hlast : s.count u = 1 → ∀ b, s.bare b ≠ some u) :
    Inv (((s.getUserNs v).set t (some (.task v))).putUserNs u) nothing := by
  have hkeep := getUserNs_task (v := v) ht
  have hset : Inv ((s.getUserNs v).set t (some (.task v))) fun w => nothing w + tok u w := by
    refine ((hi.get hv).set (x := some (.task v)) hkeep rfl (by rintro w ⟨⟩)).mono ?_
    intro w
    rw [hold_eq_tok (u := u) rfl, hold_eq_tok (u := v) rfl]
    omega
  refine hset.put (Int.le_refl 0) ?_
  intro hone b hb
  have hcount : s.count u = 1 := by
    rw [count_set] at hone
    split at hone
    · cases hone
    · rw [count_getUserNs hv, if_neg hne.symm] at hone
      exact hone
  rw [bare_set] at hb
  split at hb
  · cases hb
  · rw [(getUserNs_counted hi.bounded v).bare] at hb
    exact hlast hcount b hb

/-- A task or a file is born with the credentials of a task. -/
theorem Inv.born (hi : Inv s nothing) (ht : s.heap t = some (.task u)) (ho : o.holds = some u)
    (hb : o.bare = none) (hr : refs (some o) = 0) : Inv ((s.getUserNs u).alloc o) nothing := by
  have hget := hi.get (hi.held (Int.le_refl 0) ht rfl)
  refine (hget.alloc ?_).mono ?_
  · intro v hv
    rw [hb] at hv
    cases hv
  · intro w
    rw [hr, hold_eq_tok ho]
    simp only [nothing, tok]
    split <;> split <;> omega

/-- An object goes, or stays behind without a reference, and its reference goes back. -/
theorem Inv.drop (hi : Inv s nothing) (ha : s.heap a = some o) (ho : o.holds = some u)
    (hr : refs x = refs (some o)) (hx : hold x = fun _ => 0)
    (hb : ∀ w, x.bind Obj.bare = some w → w = u)
    (hlast : s.count u = 1 → (∀ b, s.bare b ≠ some u) ∧ x.bind Obj.bare = none) :
    Inv ((s.set a x).putUserNs u) nothing := by
  have hu := hi.held (Int.le_refl 0) ha ho
  have hset : Inv (s.set a x) fun w => nothing w + tok u w := by
    refine (hi.set ha hr ?_).mono ?_
    · intro w hw
      rw [hb w hw]
      exact hu
    · intro w
      have h0 : hold x w = 0 := by rw [hx]
      refine Int.le_of_eq ?_
      rw [h0, hold_eq_tok ho, Int.sub_zero]
  refine hset.put (Int.le_refl 0) ?_
  intro hone b hbu
  have hcount : s.count u = 1 := by
    rw [count_set] at hone
    split at hone
    · rename_i hua
      rw [count, hua, ha, ← hr]
      exact hone
    · exact hone
  obtain ⟨hbare, hnone⟩ := hlast hcount
  rw [bare_set] at hbu
  split at hbu
  · rw [hnone] at hbu
    cases hbu
  · exact hbare b hbu

/-- A count of the module or of the kernel is written in an object. -/
theorem Inv.recount (hi : Inv s nothing) (ha : s.heap a = some o) (hh : o'.holds = o.holds)
    (hb : o'.bare = o.bare) (hr : refs (some o') = refs (some o)) :
    Inv (s.set a (some o')) nothing := by
  refine (hi.set ha hr ?_).mono ?_
  · intro w hw
    refine hi.safe a w ?_
    rw [bare, ha]
    exact hb.symm.trans hw
  · intro w
    rw [hold_some, hold_some, hh]
    omega

theorem Inv.ipcnsCreate (hi : Inv s nothing) (ht : s.heap t = some (.task u)) (fails : Bool) :
    Inv (s.ipcnsCreate u fails) nothing := by
  have hu := hi.held (Int.le_refl 0) ht rfl
  unfold State.ipcnsCreate
  dsimp only
  split
  · refine (hi.get hu).put (Int.le_refl 0) ?_
    intro hone
    rw [count_getUserNs hu, if_pos rfl] at hone
    exact absurd (Nat.succ.inj hone) hu
  · exact hi.born ht rfl rfl rfl

/-- A reference on an ipc namespace goes, and with the last one its owner's. -/
theorem Inv.ipcnsPut {c : ℕ} (hi : Inv s nothing) (hn : s.heap n = some (.ipcNs u c)) (hc : c ≠ 0)
    (hlast : c = 1 → s.count u = 1 → (∀ b, s.bare b ≠ some u) ∧ s.kernelOwned = false) :
    Inv (s.ipcnsPut n u c) nothing := by
  unfold State.ipcnsPut
  split
  · rename_i hc1
    have hpos : c - 1 ≠ 0 := by omega
    refine hi.recount hn ?_ ?_ rfl
    · simp only [Obj.holds, hc, hpos, if_false]
    · simp only [Obj.bare, hc, hpos, if_false]
  · rename_i hc1
    obtain rfl : c = 1 := not_not.1 hc1
    dsimp only
    split
    · rename_i hk
      refine hi.drop hn rfl rfl ?_ ?_ ?_
      · funext w
        rw [hold_some]
        rfl
      · intro w hw
        exact (Option.some.inj hw).symm
      · intro hone
        rw [(hlast rfl hone).2] at hk
        cases hk
    · refine hi.drop hn rfl rfl rfl (by rintro w ⟨⟩) ?_
      intro hone
      exact ⟨(hlast rfl hone).1, rfl⟩

/-- **Every step that keeps the owners keeps the invariant.** -/
theorem step_inv (hi : Inv s nothing) (hC : OwnerKept s act) (hs : s.step act = some s') :
    Inv s' nothing := by
  cases act with
  | fork t =>
    simp only [step] at hs
    split at hs
    · rename_i u ht
      obtain rfl := Option.some.inj hs
      exact hi.born ht rfl rfl rfl
    · cases hs
  | openFile t =>
    simp only [step] at hs
    split at hs
    · rename_i u ht
      obtain rfl := Option.some.inj hs
      exact hi.born ht rfl rfl rfl
    · cases hs
  | newUser t =>
    simp only [step] at hs
    split at hs
    · rename_i u ht
      obtain rfl := Option.some.inj hs
      exact hi.newUser ht
    · cases hs
  | setUser t v =>
    simp only [step] at hs
    split at hs
    · rename_i u ht
      split at hs
      · rename_i hv
        obtain rfl := Option.some.inj hs
        refine hi.setUser ht hv.1 hv.2 ?_
        intro hone
        exact (hC u (by rw [gives, ht]; rfl) hone).1
      · cases hs
    · cases hs
  | exit t =>
    simp only [step] at hs
    split at hs
    · rename_i u ht
      obtain rfl := Option.some.inj hs
      refine hi.drop ht rfl rfl rfl (by rintro w ⟨⟩) ?_
      intro hone
      exact ⟨(hC u (by rw [gives, ht]; rfl) hone).1, rfl⟩
    · cases hs
  | closeFile f =>
    simp only [step] at hs
    split at hs
    · rename_i u hf
      obtain rfl := Option.some.inj hs
      refine hi.drop hf rfl rfl rfl (by rintro w ⟨⟩) ?_
      intro hone
      exact ⟨(hC u (by rw [gives, hf]; rfl) hone).1, rfl⟩
    · cases hs
  | freeUser m =>
    simp only [step] at hs
    split at hs
    · rename_i u hm
      obtain rfl := Option.some.inj hs
      refine hi.drop hm rfl rfl ?_ (by rintro w ⟨⟩) ?_
      · funext w
        rw [hold_some]
        rfl
      · intro hone
        exact ⟨(hC u (by rw [gives, hm]; rfl) hone).1, rfl⟩
    · cases hs
  | createPid t =>
    simp only [step] at hs
    split at hs
    · rename_i u ht
      obtain rfl := Option.some.inj hs
      refine (hi.alloc ?_).mono ?_
      · rintro w ⟨⟩
        exact hi.held (Int.le_refl 0) ht rfl
      · intro w
        have h0 : hold (some (.pidNs u 1)) w = 0 := by rw [hold_some]; rfl
        rw [h0]
        simp only [nothing, refs]
        split <;> omega
    · cases hs
  | createIpc t fails =>
    simp only [step] at hs
    split at hs
    · rename_i u ht
      obtain rfl := Option.some.inj hs
      exact hi.ipcnsCreate ht fails
    · cases hs
  | getPid p =>
    simp only [step] at hs
    split at hs
    · rename_i u c hp
      obtain rfl := Option.some.inj hs
      exact hi.recount hp rfl rfl rfl
    · cases hs
  | putPid p =>
    simp only [step] at hs
    split at hs
    · rename_i u c hp
      obtain rfl := Option.some.inj hs
      unfold pidnsPut
      split
      · exact hi
      · exact hi.recount hp rfl rfl rfl
    · cases hs
  | getIpc n =>
    simp only [step] at hs
    split at hs
    · rename_i u c hn
      split at hs
      · cases hs
      · rename_i hc
        obtain rfl := Option.some.inj hs
        refine hi.recount hn ?_ ?_ rfl
        · simp only [Obj.holds, hc, if_false]
          rfl
        · simp only [Obj.bare, hc, if_false]
          rfl
    · cases hs
  | putIpc n =>
    simp only [step] at hs
    split at hs
    · rename_i u c hn
      split at hs
      · cases hs
      · rename_i hc
        obtain rfl := Option.some.inj hs
        refine hi.ipcnsPut hn hc ?_
        rintro rfl hone
        obtain ⟨hbare, hk⟩ := hC u (by rw [gives, hn]; rfl) hone
        exact ⟨hbare, hk ⟨n, rfl⟩⟩
    · cases hs
  | usePid site p =>
    simp only [step] at hs
    split at hs
    · rename_i u c hp
      obtain rfl := Option.some.inj hs
      exact hi.use (hi.safe p u (by rw [bare, hp]; rfl))
    · rename_i hp
      obtain rfl := Option.some.inj hs
      exact hi.use (hi.safe p 0 (by rw [bare, hp]; rfl))
    · cases hs
  | useIpc site n =>
    simp only [step] at hs
    split at hs
    · rename_i u c hn
      obtain rfl := Option.some.inj hs
      refine hi.use ?_
      by_cases hc : c = 0
      · exact hi.safe n u (by rw [bare, hn]; simp only [Option.bind_some, Obj.bare, hc, if_true])
      · exact hi.held (Int.le_refl 0) hn (by simp only [Obj.holds, hc, if_false])
    · rename_i hn
      obtain rfl := Option.some.inj hs
      exact hi.use (hi.safe n 0 (by rw [bare, hn]; rfl))
    · cases hs

theorem start_inv (k : Bool) : Inv (start k) nothing := by
  refine ⟨?_, ?_, ?_, ?_⟩
  · intro a ha
    match a, ha with
    | a + 3, _ => rfl
  · intro u
    have hsum : (start k).holders u = 0 + hold (some (.userNs none 2)) u +
        hold (some (.task 0)) u + hold (some .hostNs) u := by
      show Census.count _ 3 _ = _
      rw [Census.count_succ, Census.count_succ, Census.count_succ]
      rfl
    rw [hsum, hold_some, hold_some, hold_some]
    cases u with
    | zero => exact Int.le_refl 2
    | succ n =>
      rw [if_neg (by rintro ⟨⟩), if_neg (by rintro ⟨⟩), if_neg (by rintro ⟨⟩)]
      exact Int.natCast_nonneg _
  · intro a u ha
    match a, ha with
    | 2, ha =>
      obtain rfl := Option.some.inj ha
      exact Nat.succ_ne_zero 1
  · rintro w ⟨⟩

/-- **Owners stay alive.**  In a run in which no step gives back the last
    reference on a user namespace that owns a registered namespace without a
    reference of its own, no owner the module has handed over had been freed. -/
theorem owner_alive {k : Bool} (h : RunIf step OwnerKept (start k) s) :
    ∀ w ∈ s.uses, w.freed = false := by
  have hi : Inv s nothing := h.inv (start_inv k) fun _ _ _ hi hC ha => step_inv hi hC ha
  exact hi.unfreed

/-- **A freed owner is handed over.**  A task makes a user namespace and a pid
    namespace, whose link another task opens; its credentials go, and the pid
    namespace is entered. -/
theorem owner_freed : ∃ s, Run step (start false) s ∧ ∃ w ∈ s.uses, w.freed = true := by
  obtain ⟨s, hrun, hs⟩ := exec_check step (start false)
    [.fork 1, .newUser 3, .createPid 3, .getPid 5, .exit 3, .usePid .install 5]
    (fun s => decide (s.uses = [⟨.install, 4, true⟩])) (by decide)
  refine ⟨s, hrun, ⟨.install, 4, true⟩, ?_, rfl⟩
  rw [of_decide_eq_true hs]
  exact List.mem_cons_self

/-- The owner is there while its creator is. -/
theorem owner_alive_run : ∃ s : State, s.uses = [⟨.install, 4, false⟩] ∧
    ∀ w ∈ s.uses, w.freed = false := by
  obtain ⟨s, hrun, hs⟩ := execIf_check (C := OwnerKept) step
    (fun s a => decide (s.gives a = none))
    (by
      intro s a hc u hu
      rw [of_decide_eq_true hc] at hu
      cases hu)
    (start false) [.fork 1, .newUser 3, .createPid 3, .getPid 5, .usePid .install 5]
    (fun s => decide (s.uses = [⟨.install, 4, false⟩])) (by decide)
  exact ⟨s, of_decide_eq_true hs, owner_alive hrun⟩

end State

end DroidLkm.Users
