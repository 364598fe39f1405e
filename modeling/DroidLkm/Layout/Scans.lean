/-
  The scans of the anchors, read by read.

  * `findPtr`, `findU32`, `findU32Pair`, `findTask`: the four scanners of
    `ds_layout_anchor.c`, with what each reads; their results are those of
    `Layout.Anchor` (`findPtr_eq` and so on);
  * `Exact`: a scanner succeeds at the only place that matches, and at no other;
  * `Within`: it reads no element past the window;
  * `Clear`: no place is in doubt that could change the result of `findTask`;
  * `scans_exact`: the first three are exact, and the last one is if and only if
    the window is clear.
-/
import DroidLkm.Layout.Anchor

namespace DroidLkm.Layout.Scans

open Image

/-- A window that an index of 32 bits runs over; those of the callers have 4096 bytes
    at most. -/
structure Window where
  size : ℕ
  size_lt : size < 2 ^ 32 - 8

/-- A read, of an element of the window or elsewhere. -/
inductive Read where
  | window (off width : ℕ)
  | other (addr width : ℕ)
  deriving DecidableEq

/-- What a round of a loop reads, and whether its place matches. -/
structure Probe where
  reads : List Read
  hit : Bool

/-- `n` rounds from the place `j` on, with `found` and `at`; a second match ends the
    loop. -/
def rounds (probe : ℕ → Probe) : ℕ → ℕ → Option ℕ → Option ℕ × List Read
  | 0, _, at? => (at?, [])
  | n + 1, j, at? =>
    let p := probe j
    if p.hit then
      match at? with
      | some _ => (none, p.reads)
      | none =>
        let r := rounds probe n (j + 1) (some j)
        (r.1, p.reads ++ r.2)
    else
      let r := rounds probe n (j + 1) at?
      (r.1, p.reads ++ r.2)

variable (m : Image)

/-! ## The functions of the source -/

def ptrProbe (base want off : ℕ) : Probe :=
  ⟨[.window off 8], rd m (base + off) 8 == some want⟩

/-- `ds_anchor_find_ptr` -/
def findPtr (base : ℕ) (win : Window) (want : ℕ) : Option ℕ × List Read :=
  let r := rounds (fun j => ptrProbe m base want (8 * j)) (win.size / 8) 0 none
  (r.1.map (8 * ·), r.2)

def u32Probe (base want off : ℕ) : Probe :=
  ⟨[.window off 4], rd m (base + off) 4 == some want⟩

/-- `ds_anchor_find_u32` -/
def findU32 (base : ℕ) (win : Window) (want : ℕ) : Option ℕ × List Read :=
  let r := rounds (fun j => u32Probe m base want (4 * j)) (win.size / 4) 0 none
  (r.1.map (4 * ·), r.2)

/-- The second number is read where the first can be. -/
def pairProbe (base first second off : ℕ) : Probe :=
  ⟨.window off 4 :: if (rd m (base + off) 4).isSome then [.window (off + 4) 4] else [],
    rd m (base + off) 4 == some first && rd m (base + off + 4) 4 == some second⟩

/-- `ds_anchor_find_u32_pair` -/
def findU32Pair (base : ℕ) (win : Window) (first second : ℕ) : Option ℕ × List Read :=
  let r := rounds (fun j => pairProbe m base first second (4 * j)) (win.size / 4 - 1) 0 none
  (r.1.map (4 * · + 4), r.2)

/-- The first word of the name of a task with this pid and tgid, whose address is at
    this place, and what is read on the way elsewhere. -/
def nameWord (pidOff commOff pid cand : ℕ) : Option ℕ × List Read :=
  if cand = 0 then (none, [])
  else match rd m (cand + pidOff) 4 with
    | none => (none, [.other (cand + pidOff) 4])
    | some p => match rd m (cand + pidOff + 4) 4 with
      | none => (none, [.other (cand + pidOff) 4, .other (cand + pidOff + 4) 4])
      | some tgid =>
        if p ≠ pid ∨ tgid ≠ pid then
          (none, [.other (cand + pidOff) 4, .other (cand + pidOff + 4) 4])
        else (rd m (cand + commOff) 8, [.other (cand + pidOff) 4, .other (cand + pidOff + 4) 4,
          .other (cand + commOff) 8])

/-- `comm[0] && memchr(comm, 0, sizeof(comm))`, where the first eight bytes of `comm`
    are copied from memory and `tail` is what the stack holds after them. -/
def commOk (tail : Vector UInt8 8) (cv : ℕ) : Bool :=
  cv % 256 != 0 && (Env.hasZero cv || tail.toList.contains 0)

def taskProbe (tail : Vector UInt8 8) (base pidOff commOff pid off : ℕ) : Probe :=
  match rd m (base + off) 8 with
  | none => ⟨[.window off 8], false⟩
  | some cand =>
    let r := nameWord m pidOff commOff pid cand
    ⟨.window off 8 :: r.2, r.1.any (commOk tail)⟩

/-- `ds_anchor_find_task` -/
def findTask (tail : Vector UInt8 8) (base : ℕ) (win : Window) (pidOff commOff pid : ℕ) :
    Option ℕ × List Read :=
  let r := rounds (fun j => taskProbe m tail base pidOff commOff pid (8 * j)) (win.size / 8) 0 none
  (r.1.map (8 * ·), r.2)

/-! ## What the scanners are for -/

/-- The offset is the only one in the window, at this stride, that matches. -/
def Alone (stride width : ℕ) (win : Window) (hit : ℕ → Prop) (off : ℕ) : Prop :=
  (stride ∣ off ∧ off + width ≤ win.size ∧ hit off) ∧
    ∀ off', stride ∣ off' → off' + width ≤ win.size → hit off' → off' = off

/-- The scan returns that offset (and `shift`), where there is one. -/
def Exact (stride width shift : ℕ) (win : Window) (hit : ℕ → Prop) (r : Option ℕ) : Prop :=
  ∀ v, r = some v ↔ ∃ off, v = off + shift ∧ Alone stride width win hit off

/-- No element that is read goes past the window. -/
def Within (win : Window) (reads : List Read) : Prop :=
  ∀ off width, Read.window off width ∈ reads → off + width ≤ win.size

/-- The place holds the address of a task with this pid and tgid, and these are the
    first eight bytes of its name, not empty. -/
def Named (base pidOff commOff pid off cv : ℕ) : Prop :=
  ∃ cand, rd m (base + off) 8 = some cand ∧ cand ≠ 0 ∧ rd m (cand + pidOff) 4 = some pid ∧
    rd m (cand + pidOff + 4) 4 = some pid ∧ rd m (cand + commOff) 8 = some cv ∧ cv % 256 ≠ 0

/-- The task is told by memory: its name ends within the bytes that are copied. -/
def Sure (base pidOff commOff pid off : ℕ) : Prop :=
  ∃ cv, Named m base pidOff commOff pid off cv ∧ Env.hasZero cv = true

/-- Its name does not end there. -/
def Doubt (base pidOff commOff pid off : ℕ) : Prop :=
  ∃ cv, Named m base pidOff commOff pid off cv ∧ Env.hasZero cv = false

/-- A place of the window. -/
def Place (win : Window) (off : ℕ) : Prop := 8 ∣ off ∧ off + 8 ≤ win.size

/-- No place is in doubt, or two match without a doubt, or two are in doubt and none
    is without. -/
def Clear (base : ℕ) (win : Window) (pidOff commOff pid : ℕ) : Prop :=
  (∀ off, Place win off → ¬Doubt m base pidOff commOff pid off) ∨
  (∃ a b, a ≠ b ∧ Place win a ∧ Place win b ∧ Sure m base pidOff commOff pid a ∧
    Sure m base pidOff commOff pid b) ∨
  ((∀ off, Place win off → ¬Sure m base pidOff commOff pid off) ∧
    ∃ a b, a ≠ b ∧ Place win a ∧ Place win b ∧ Doubt m base pidOff commOff pid a ∧
      Doubt m base pidOff commOff pid b)

variable {m} {probe : ℕ → Probe} {n j : ℕ} {at? : Option ℕ} {win : Window}

/-! ## Rounds -/

theorem rounds_fst : (rounds probe n j at?).1 = scanFrom (fun q => (probe q).hit) n j at? := by
  induction n generalizing j at? with
  | zero => rfl
  | succ n ih =>
    cases hhit : (probe j).hit with
    | false =>
      simp only [rounds, scanFrom, hhit, Bool.false_eq_true, if_false]
      exact ih
    | true =>
      cases at? with
      | none =>
        simp only [rounds, scanFrom, hhit, if_true]
        exact ih
      | some a => simp only [rounds, scanFrom, hhit, if_true]

/-- What is read is read in a round. -/
theorem mem_rounds {r : Read} (h : r ∈ (rounds probe n j at?).2) :
    ∃ q, j ≤ q ∧ q < j + n ∧ r ∈ (probe q).reads := by
  induction n generalizing j at? with
  | zero => cases h
  | succ n ih =>
    have hhere : r ∈ (probe j).reads → ∃ q, j ≤ q ∧ q < j + (n + 1) ∧ r ∈ (probe q).reads :=
      fun hr => ⟨j, Nat.le_refl j, by omega, hr⟩
    have hlater : ∀ at?, r ∈ (probe j).reads ++ (rounds probe n (j + 1) at?).2 →
        ∃ q, j ≤ q ∧ q < j + (n + 1) ∧ r ∈ (probe q).reads := by
      intro at? hr
      rcases List.mem_append.1 hr with hr | hr
      · exact hhere hr
      · obtain ⟨q, hq, hqn, hmem⟩ := ih hr
        exact ⟨q, by omega, by omega, hmem⟩
    unfold rounds at h
    cases hhit : (probe j).hit with
    | false =>
      simp only [hhit, Bool.false_eq_true, if_false] at h
      exact hlater at? h
    | true =>
      simp only [hhit, if_true] at h
      cases at? with
      | none => exact hlater (some j) h
      | some a => exact hhere h

/-- A scan over the places of a window is exact. -/
theorem exact_scan {stride width shift : ℕ} {hit : ℕ → Prop} {test : ℕ → Bool} (hs : 0 < stride)
    (hn : ∀ j, j < n ↔ stride * j + width ≤ win.size)
    (htest : ∀ j < n, test j = true ↔ hit (stride * j)) :
    Exact stride width shift win hit ((scan test n).map (stride * · + shift)) := by
  intro v
  rw [Option.map_eq_some_iff]
  constructor
  · rintro ⟨j, hj, rfl⟩
    obtain ⟨hjn, hhit, huniq⟩ := scan_eq_some.1 hj
    refine ⟨stride * j, rfl, ⟨Dvd.intro j rfl, (hn j).1 hjn, (htest j hjn).1 hhit⟩, ?_⟩
    rintro _ ⟨q, rfl⟩ hq hhitq
    rw [huniq q ((hn q).2 hq) ((htest q ((hn q).2 hq)).2 hhitq)]
  · rintro ⟨_, rfl, ⟨⟨j, rfl⟩, hj, hhit⟩, huniq⟩
    refine ⟨j, scan_eq_some.2 ⟨(hn j).2 hj, (htest j ((hn j).2 hj)).2 hhit, ?_⟩, rfl⟩
    intro q hq hhitq
    exact Nat.eq_of_mul_eq_mul_left hs
      (huniq (stride * q) (Dvd.intro q rfl) ((hn q).1 hq) ((htest q hq).1 hhitq))

theorem within_rounds (h : ∀ q < n, Within win (probe q).reads) :
    Within win (rounds probe n 0 none).2 := by
  intro off width hr
  obtain ⟨q, -, hq, hmem⟩ := mem_rounds hr
  exact h q (by omega) off width hmem

/-! ## Pointers and numbers -/

theorem findPtr_exact (m : Image) (base : ℕ) (win : Window) (want : ℕ) :
    Exact 8 8 0 win (fun off => rd m (base + off) 8 = some want) (findPtr m base win want).1 := by
  unfold findPtr
  dsimp only
  rw [rounds_fst]
  exact exact_scan (by decide) (fun j => by omega) fun j _ => beq_iff_eq

theorem findPtr_within (m : Image) (base : ℕ) (win : Window) (want : ℕ) :
    Within win (findPtr m base win want).2 := by
  refine within_rounds fun q hq off width hr => ?_
  obtain ⟨rfl, rfl⟩ : off = 8 * q ∧ width = 8 := by simpa [ptrProbe] using hr
  omega

theorem findU32_exact (m : Image) (base : ℕ) (win : Window) (want : ℕ) :
    Exact 4 4 0 win (fun off => rd m (base + off) 4 = some want) (findU32 m base win want).1 := by
  unfold findU32
  dsimp only
  rw [rounds_fst]
  exact exact_scan (by decide) (fun j => by omega) fun j _ => beq_iff_eq

theorem findU32_within (m : Image) (base : ℕ) (win : Window) (want : ℕ) :
    Within win (findU32 m base win want).2 := by
  refine within_rounds fun q hq off width hr => ?_
  obtain ⟨rfl, rfl⟩ : off = 4 * q ∧ width = 4 := by simpa [u32Probe] using hr
  omega

theorem findU32Pair_exact (m : Image) (base : ℕ) (win : Window) (first second : ℕ) :
    Exact 4 8 4 win
      (fun off => rd m (base + off) 4 = some first ∧ rd m (base + off + 4) 4 = some second)
      (findU32Pair m base win first second).1 := by
  unfold findU32Pair
  dsimp only
  rw [rounds_fst]
  refine exact_scan (by decide) (fun j => by omega) fun j _ => ?_
  simp only [pairProbe, Bool.and_eq_true, beq_iff_eq]

theorem findU32Pair_within (m : Image) (base : ℕ) (win : Window) (first second : ℕ) :
    Within win (findU32Pair m base win first second).2 := by
  refine within_rounds fun q hq off width hr => ?_
  unfold pairProbe at hr
  rcases List.mem_cons.1 hr with hr | hr
  · obtain ⟨rfl, rfl⟩ := Read.window.inj hr
    omega
  · split at hr
    · obtain ⟨rfl, rfl⟩ := Read.window.inj (List.mem_singleton.1 hr)
      omega
    · cases hr

/-! ## Tasks -/

variable {base pidOff commOff pid off cv cand : ℕ} {tail : Vector UInt8 8}

theorem nameWord_fst : (nameWord m pidOff commOff pid cand).1 = some cv ↔
    cand ≠ 0 ∧ rd m (cand + pidOff) 4 = some pid ∧ rd m (cand + pidOff + 4) 4 = some pid ∧
      rd m (cand + commOff) 8 = some cv := by
  unfold nameWord
  split
  · next h => simp [h]
  next hne =>
  split
  · next h => simp [h]
  next p hp =>
  split
  · next h => simp [h]
  next tgid htgid =>
  split
  · next h =>
    simp only [reduceCtorEq, false_iff]
    rintro ⟨-, hpid, htg, -⟩
    rw [hp, Option.some.injEq] at hpid
    rw [htgid, Option.some.injEq] at htg
    exact h.elim (· hpid) (· htg)
  · next h =>
    rw [not_or, not_not, not_not] at h
    simp [hne, hp, htgid, h.1, h.2]

theorem nameWord_snd {o width : ℕ} :
    Read.window o width ∉ (nameWord m pidOff commOff pid cand).2 := by
  unfold nameWord
  repeat' split
  all_goals simp

/-- A round finds the sure ones, and those in doubt if the stack has a 0. -/
theorem taskProbe_hit : (taskProbe m tail base pidOff commOff pid off).hit = true ↔
    Sure m base pidOff commOff pid off ∨
      (Doubt m base pidOff commOff pid off ∧ tail.toList.contains 0 = true) := by
  have hnamed : (taskProbe m tail base pidOff commOff pid off).hit = true ↔
      ∃ cv, Named m base pidOff commOff pid off cv ∧ (Env.hasZero cv || tail.toList.contains 0) = true := by
    unfold taskProbe Named
    split
    · next h => simp [h]
    · next cand hcand =>
      simp only [Option.any_eq_true, nameWord_fst, commOk, Bool.and_eq_true, bne_iff_ne, hcand,
        Option.some.injEq]
      constructor
      · rintro ⟨cv, ⟨hne, hp, ht, hc⟩, hcv, hz⟩
        exact ⟨cv, ⟨cand, rfl, hne, hp, ht, hc, hcv⟩, hz⟩
      · rintro ⟨cv, ⟨cand, rfl, hne, hp, ht, hc, hcv⟩, hz⟩
        exact ⟨cv, ⟨hne, hp, ht, hc⟩, hcv, hz⟩
  rw [hnamed]
  constructor
  · rintro ⟨cv, hcv, hz⟩
    cases hzero : Env.hasZero cv with
    | true => exact .inl ⟨cv, hcv, hzero⟩
    | false =>
      rw [hzero, Bool.false_or] at hz
      exact .inr ⟨⟨cv, hcv, hzero⟩, hz⟩
  · rintro (⟨cv, hcv, hzero⟩ | ⟨⟨cv, hcv, hzero⟩, hz⟩)
    · exact ⟨cv, hcv, by rw [hzero]; rfl⟩
    · exact ⟨cv, hcv, by rw [hz, Bool.or_true]⟩

theorem not_sure_of_doubt (h : Doubt m base pidOff commOff pid off) :
    ¬Sure m base pidOff commOff pid off := by
  rintro ⟨cv', ⟨cand', hcand', -, -, -, hc', -⟩, hzero'⟩
  obtain ⟨cv, ⟨cand, hcand, -, -, -, hc, -⟩, hzero⟩ := h
  obtain rfl : cand = cand' := Option.some.inj (hcand.symm.trans hcand')
  obtain rfl : cv = cv' := Option.some.inj (hc.symm.trans hc')
  rw [hzero] at hzero'
  cases hzero'

theorem findTask_within (m : Image) (tail : Vector UInt8 8) (base : ℕ) (win : Window)
    (pidOff commOff pid : ℕ) : Within win (findTask m tail base win pidOff commOff pid).2 := by
  refine within_rounds fun q hq off width hr => ?_
  have hread : Read.window off width = .window (8 * q) 8 := by
    unfold taskProbe at hr
    split at hr
    · exact List.mem_singleton.1 hr
    · rcases List.mem_cons.1 hr with hr | hr
      · exact hr
      · exact absurd hr nameWord_snd
  obtain ⟨rfl, rfl⟩ := Read.window.inj hread
  omega

/-- What the scan finds with this stack. -/
theorem findTask_found (m : Image) (tail : Vector UInt8 8) (base : ℕ) (win : Window)
    (pidOff commOff pid : ℕ) :
    Exact 8 8 0 win (fun off => Sure m base pidOff commOff pid off ∨
        (Doubt m base pidOff commOff pid off ∧ tail.toList.contains 0 = true))
      (findTask m tail base win pidOff commOff pid).1 := by
  unfold findTask
  dsimp only
  rw [rounds_fst]
  exact exact_scan (by decide) (fun j => by omega) fun j _ => taskProbe_hit

/-! ## Places in doubt -/

section
variable {S D : ℕ → Prop}

theorem not_alone {a b : ℕ} {hit : ℕ → Prop} (hab : a ≠ b) (ha : Place win a) (hb : Place win b)
    (hhit : hit a) (hhit' : hit b) : ¬Alone 8 8 win hit off := by
  rintro ⟨-, huniq⟩
  exact hab ((huniq a ha.1 ha.2 hhit).trans (huniq b hb.1 hb.2 hhit').symm)

/-- More matches leave the only one the only one, or are two where there was none. -/
theorem alone_or_iff (hSD : ∀ off, D off → ¬S off) :
    (∀ off, Alone 8 8 win S off ↔ Alone 8 8 win (fun o => S o ∨ D o) off) ↔
      (∀ off, Place win off → ¬D off) ∨
      (∃ a b, a ≠ b ∧ Place win a ∧ Place win b ∧ S a ∧ S b) ∨
      ((∀ off, Place win off → ¬S off) ∧
        ∃ a b, a ≠ b ∧ Place win a ∧ Place win b ∧ D a ∧ D b) := by
  constructor
  · intro h
    by_cases hnone : ∀ off, Place win off → ¬D off
    · exact .inl hnone
    push Not at hnone
    obtain ⟨d, hd, hDd⟩ := hnone
    refine .inr ?_
    by_cases hS : ∀ off, Place win off → ¬S off
    · refine .inr ⟨hS, ?_⟩
      by_contra hone
      have halone : Alone 8 8 win (fun o => S o ∨ D o) d := by
        refine ⟨⟨hd.1, hd.2, .inr hDd⟩, fun off' h₁ h₂ hhit => ?_⟩
        by_contra hne
        exact hone ⟨off', d, hne, ⟨h₁, h₂⟩, hd, hhit.resolve_left (hS off' ⟨h₁, h₂⟩), hDd⟩
      exact hS d hd ((h d).2 halone).1.2.2
    · push Not at hS
      obtain ⟨s, hs, hSs⟩ := hS
      refine .inl ?_
      by_contra hone
      have halone : Alone 8 8 win S s := by
        refine ⟨⟨hs.1, hs.2, hSs⟩, fun off' h₁ h₂ hhit => ?_⟩
        by_contra hne
        exact hone ⟨off', s, hne, ⟨h₁, h₂⟩, hs, hhit, hSs⟩
      have hds : d = s := ((h s).1 halone).2 d hd.1 hd.2 (.inr hDd)
      exact hSD d hDd (hds ▸ hSs)
  · rintro (hnone | ⟨a, b, hab, ha, hb, hSa, hSb⟩ | ⟨hS, a, b, hab, ha, hb, hDa, hDb⟩) off
    · have hsame : ∀ o, o + 8 ≤ win.size → 8 ∣ o → (S o ∨ D o ↔ S o) := fun o h₁ h₂ =>
        or_iff_left (hnone o ⟨h₂, h₁⟩)
      constructor
      · rintro ⟨⟨h₁, h₂, hhit⟩, huniq⟩
        exact ⟨⟨h₁, h₂, .inl hhit⟩, fun off' h₁' h₂' hhit' =>
          huniq off' h₁' h₂' ((hsame off' h₂' h₁').1 hhit')⟩
      · rintro ⟨⟨h₁, h₂, hhit⟩, huniq⟩
        exact ⟨⟨h₁, h₂, (hsame off h₂ h₁).1 hhit⟩, fun off' h₁' h₂' hhit' =>
          huniq off' h₁' h₂' (.inl hhit')⟩
    · exact iff_of_false (not_alone hab ha hb hSa hSb)
        (not_alone hab ha hb (.inl hSa) (.inl hSb))
    · exact iff_of_false (fun h => hS off ⟨h.1.1, h.1.2.1⟩ h.1.2.2)
        (not_alone hab ha hb (.inr hDa) (.inr hDb))

end

theorem Exact.congr_iff {stride width shift : ℕ} {hit hit' : ℕ → Prop} {r : Option ℕ}
    (h : Exact stride width shift win hit' r) :
    Exact stride width shift win hit r ↔
      ∀ off, Alone stride width win hit off ↔ Alone stride width win hit' off := by
  constructor
  · intro h' off
    have hboth := ((h' (off + shift)).symm.trans (h (off + shift)))
    constructor
    · intro ha
      obtain ⟨o, ho, ha'⟩ := hboth.1 ⟨off, rfl, ha⟩
      rwa [Nat.add_right_cancel ho]
    · intro ha
      obtain ⟨o, ho, ha'⟩ := hboth.2 ⟨off, rfl, ha⟩
      rwa [Nat.add_right_cancel ho]
  · intro hsame v
    rw [h v]
    simp only [hsame]

/-- Whatever the stack holds, the answer is that of memory, if and only if the window
    is clear. -/
theorem findTask_exact_iff (m : Image) (base : ℕ) (win : Window) (pidOff commOff pid : ℕ) :
    (∀ tail, Exact 8 8 0 win (Sure m base pidOff commOff pid)
        (findTask m tail base win pidOff commOff pid).1) ↔
      Clear m base win pidOff commOff pid := by
  have hdisj : ∀ off, Doubt m base pidOff commOff pid off → ¬Sure m base pidOff commOff pid off :=
    fun _ => not_sure_of_doubt
  rw [Clear, ← alone_or_iff hdisj]
  constructor
  · intro h off
    have hfound := findTask_found m (Vector.replicate 8 0) base win pidOff commOff pid
    have hzero : (Vector.replicate 8 (0 : UInt8)).toList.contains 0 = true := by decide
    simp only [hzero, and_true] at hfound
    exact hfound.congr_iff.1 (h (Vector.replicate 8 0)) off
  · intro h tail
    have hfound := findTask_found m tail base win pidOff commOff pid
    cases hzero : tail.toList.contains 0 with
    | true =>
      simp only [hzero, and_true] at hfound
      exact hfound.congr_iff.2 h
    | false =>
      simpa only [hzero, Bool.false_eq_true, and_false, or_false] using hfound

/-! ## The scanners of the stages -/

/-- The stages use the same results. -/
theorem findPtr_eq (e : Env) (base : ℕ) (win : Window) (want : ℕ) :
    (findPtr e.image base win want).1 = e.findPtr base win.size want := by
  unfold findPtr
  dsimp only
  rw [rounds_fst]
  rfl

theorem findU32_eq (e : Env) (base : ℕ) (win : Window) (want : ℕ) :
    (findU32 e.image base win want).1 = e.findU32 base win.size want := by
  unfold findU32
  dsimp only
  rw [rounds_fst]
  rfl

theorem findU32Pair_eq (e : Env) (base : ℕ) (win : Window) (first second : ℕ) :
    (findU32Pair e.image base win first second).1 = e.findU32Pair base win.size first second := by
  unfold findU32Pair
  dsimp only
  rw [rounds_fst]
  rfl

/-- The stack is the same in each round. -/
theorem findTask_eq (e : Env) (tail : Vector UInt8 8) (hjunk : e.junk = fun _ => tail.toList.contains 0)
    (base : ℕ) (win : Window) (pidOff commOff pid : ℕ) :
    (findTask e.image tail base win pidOff commOff pid).1 =
      e.findTask base win.size pidOff commOff pid := by
  unfold findTask Env.findTask
  dsimp only
  rw [rounds_fst]
  congr 1
  refine scan_congr fun q _ => ?_
  have hcand : (taskProbe e.image tail base pidOff commOff pid (8 * q)).hit =
      (rd e.image (base + 8 * q) 8).any fun cand =>
        (nameWord e.image pidOff commOff pid cand).1.any (commOk tail) := by
    unfold taskProbe
    cases rd e.image (base + 8 * q) 8 <;> rfl
  rw [hcand, Bool.eq_iff_iff]
  simp only [Env.taskHit, Env.rd64, Env.rd32, Env.isTask, hjunk, commOk, Option.any_eq_true,
    nameWord_fst, Bool.and_eq_true, bne_iff_ne, beq_iff_eq]
  constructor
  · rintro ⟨cand, hread, cv, ⟨hne, hp, ht, hc⟩, hcv⟩
    exact ⟨cand, hread, ⟨⟨hne, hp⟩, ht⟩, cv, hc, hcv⟩
  · rintro ⟨cand, hread, ⟨⟨hne, hp⟩, ht⟩, cv, hc, hcv⟩
    exact ⟨cand, hread, cv, ⟨hne, hp, ht, hc⟩, hcv⟩

/-- **The scans.**  For every image the scanners of pointers, numbers and pairs are
    exact, all four stay within their windows, and the scanner of tasks is exact,
    whatever the stack holds, if and only if the window is clear. -/
theorem scans_exact (m : Image) (base : ℕ) (win : Window) :
    (∀ want, Exact 8 8 0 win (fun off => rd m (base + off) 8 = some want)
        (findPtr m base win want).1 ∧ Within win (findPtr m base win want).2) ∧
    (∀ want, Exact 4 4 0 win (fun off => rd m (base + off) 4 = some want)
        (findU32 m base win want).1 ∧ Within win (findU32 m base win want).2) ∧
    (∀ first second, Exact 4 8 4 win
        (fun off => rd m (base + off) 4 = some first ∧ rd m (base + off + 4) 4 = some second)
        (findU32Pair m base win first second).1 ∧
      Within win (findU32Pair m base win first second).2) ∧
    ∀ pidOff commOff pid,
      (∀ tail, Within win (findTask m tail base win pidOff commOff pid).2) ∧
      ((∀ tail, Exact 8 8 0 win (Sure m base pidOff commOff pid)
          (findTask m tail base win pidOff commOff pid).1) ↔
        Clear m base win pidOff commOff pid) :=
  ⟨fun want => ⟨findPtr_exact m base win want, findPtr_within m base win want⟩,
    fun want => ⟨findU32_exact m base win want, findU32_within m base win want⟩,
    fun first second =>
      ⟨findU32Pair_exact m base win first second, findU32Pair_within m base win first second⟩,
    fun pidOff commOff pid => ⟨fun tail => findTask_within m tail base win pidOff commOff pid,
      findTask_exact_iff m base win pidOff commOff pid⟩⟩

/-! ## A long name -/

/-- At 64 there is the address 128 of a task, whose pid and tgid are 1 and whose name
    begins with `"init.rc-"`. -/
def longName : Image := ofWords fun k =>
  if k = 8 then 128 else if k = 16 then 1 + 2 ^ 32 else if k = 17 then 0x2d63722e74696e69 else 0

/-- A window of one pointer. -/
def onePtr : Window := ⟨8, by decide⟩

/-- The task is found with one stack and not with another. -/
theorem longName_not_exact : ¬∀ tail, Exact 8 8 0 onePtr (Sure longName 64 0 8 1)
    (findTask longName tail 64 onePtr 0 8 1).1 := by
  intro h
  have hfound : (findTask longName (Vector.replicate 8 0) 64 onePtr 0 8 1).1 = some 0 := by decide +kernel
  have hlost : (findTask longName (Vector.replicate 8 1) 64 onePtr 0 8 1).1 = none := by decide +kernel
  have hsure := (h (Vector.replicate 8 0) 0).1 hfound
  rw [← h (Vector.replicate 8 1) 0, hlost] at hsure
  cases hsure

end DroidLkm.Layout.Scans
