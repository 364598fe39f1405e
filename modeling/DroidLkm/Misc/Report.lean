/-
  The report under /proc/droid_lkm_misc/status.

  * `report`, `reportCount`, `reportText`: as in `misc_proc.c`, on the table of slots;
  * `names`: the names that were reported, in the order in which they first were;
  * `latest`: what was last reported under a name;
  * `reports_eq`: the table has the first 24 names, each with what is latest;
  * `status_text`: the text has one line for each of them, and is never cut off.
-/
import DroidLkm.Errno
import Mathlib.Data.List.Nodup
import Mathlib.Data.List.Induction

namespace DroidLkm.Misc

/-! ## The functions -/

/-- The bytes of a string, without the NUL. -/
abbrev Str := List UInt8

def DROID_LKM_MISC_REPORT_SLOTS : ℕ := 24

def DROID_LKM_MISC_REPORT_NAME : ℕ := 28

def DROID_LKM_MISC_REPORT_STATE : ℕ := 14

def DROID_LKM_MISC_REPORT_DETAIL : ℕ := 72

structure Slot where
  used : Bool
  name : Str
  state : Str
  detail : Str
  deriving DecidableEq

/-- What `droid_lkm_misc_report` is called with, but for a name or a state that is NULL: then
    it returns at once. -/
structure Report where
  name : Str
  state : Str
  detail : Option Str

def strscpy (src : Str) (size : ℕ) : Str := src.take (size - 1)

/-- The loop of `droid_lkm_misc_report`. -/
def slotOf (name : Str) : List Slot → ℕ
  | [] => 0
  | s :: rest => if s.used && s.name != name then slotOf name rest + 1 else 0

def Report.slot (r : Report) : Slot where
  used := true
  name := strscpy r.name DROID_LKM_MISC_REPORT_NAME
  state := strscpy r.state DROID_LKM_MISC_REPORT_STATE
  detail := strscpy (r.detail.getD []) DROID_LKM_MISC_REPORT_DETAIL

/-- `droid_lkm_misc_report` -/
def report (slots : List Slot) (r : Report) : List Slot :=
  let i := slotOf r.name slots
  if i = slots.length then slots else slots.set i r.slot

def unused : Slot := ⟨false, [], [], []⟩

/-- The table after these reports. -/
def reports (rs : List Report) : List Slot :=
  rs.foldl report (List.replicate DROID_LKM_MISC_REPORT_SLOTS unused)

/-- `droid_lkm_misc_report_count` -/
def reportCount (slots : List Slot) (state : Str) : ℕ :=
  slots.countP fun s => s.used && s.state == state

def padRight (w : ℕ) (s : Str) : Str := s ++ List.replicate (w - s.length) 32

/-- `"%-24s %-14s %s\n"` -/
def statusLine (s : Slot) : Str :=
  padRight 24 s.name ++ 32 :: (padRight 14 s.state ++ 32 :: (s.detail ++ [10]))

/-- The loop of `droid_lkm_misc_report_text`; `text` is in the buffer by now. -/
def reportTextFrom (size : ℕ) (text : Str) : List Slot → Str
  | [] => text
  | s :: rest =>
    if !s.used then reportTextFrom size text rest
    else if text.length ≥ size - 1 then text
    else reportTextFrom size (text ++ (statusLine s).take (size - text.length - 1)) rest

/-- `droid_lkm_misc_report_text` -/
def reportText (slots : List Slot) (size : ℕ) : Str := reportTextFrom size [] slots

/-! ## What was reported -/

/-- The names, in the order in which they were first reported. -/
def names (rs : List Report) : List Str :=
  rs.foldl (fun ns r => if r.name ∈ ns then ns else ns ++ [r.name]) []

/-- The last report under a name. -/
def latest (rs : List Report) (name : Str) : Slot :=
  rs.foldl (fun s r => if r.name = name then r.slot else s) unused

/-- The name is not cut off. -/
def Report.Short (r : Report) : Prop := r.name.length < DROID_LKM_MISC_REPORT_NAME

variable {rs : List Report} {r : Report} {ns : List Str} {name : Str} {f : Str → Slot} {k : ℕ}
  {slots : List Slot}

theorem reports_concat : reports (rs ++ [r]) = report (reports rs) r := by
  simp [reports]

/-- The table has as many slots as ever. -/
theorem length_reports (rs : List Report) :
    (reports rs).length = DROID_LKM_MISC_REPORT_SLOTS := by
  induction rs using List.reverseRecOn with
  | nil => rfl
  | append_singleton rs r ih =>
    simp only [reports_concat, report]
    split
    · exact ih
    · rw [List.length_set, ih]

theorem names_concat :
    names (rs ++ [r]) = if r.name ∈ names rs then names rs else names rs ++ [r.name] := by
  rw [names, List.foldl_append]
  rfl

theorem latest_concat :
    latest (rs ++ [r]) name = if r.name = name then r.slot else latest rs name := by
  simp [latest]

theorem names_nodup (rs : List Report) : (names rs).Nodup := by
  induction rs using List.reverseRecOn with
  | nil => exact List.nodup_nil
  | append_singleton rs r ih =>
    rw [names_concat]
    split
    · exact ih
    · next h =>
      refine List.nodup_append.2 ⟨ih, List.nodup_singleton _, ?_⟩
      rintro a ha b hb rfl
      exact h (List.mem_singleton.1 hb ▸ ha)

theorem slot_name (h : r.Short) : r.slot.name = r.name :=
  List.take_of_length_le (Nat.le_pred_of_lt h)

/-- What was reported under a name has it, and is in use. -/
theorem latest_spec (hs : ∀ r ∈ rs, r.Short) (h : name ∈ names rs) :
    (latest rs name).used = true ∧ (latest rs name).name = name := by
  induction rs using List.reverseRecOn with
  | nil => simp [names] at h
  | append_singleton rs r ih =>
    rw [latest_concat]
    split
    · next hr => exact ⟨rfl, (slot_name (hs r (by simp))).trans hr⟩
    · next hr =>
      refine ih (fun q hq => hs q (by simp [hq])) ?_
      rw [names_concat] at h
      split at h
      · exact h
      · exact (List.mem_append.1 h).resolve_right fun hm => hr (List.mem_singleton.1 hm).symm

/-! ## The table -/

/-- The search passes the names that are not its own. -/
theorem slotOf_append (h : ∀ n ∈ ns, (f n).used = true ∧ (f n).name = n) (hn : name ∉ ns) :
    slotOf name (ns.map f ++ slots) = ns.length + slotOf name slots := by
  induction ns with
  | nil => simp
  | cons n ns ih =>
    have hne : n ≠ name := fun he => hn (he ▸ List.mem_cons_self)
    have hn' : name ∉ ns := fun hm => hn (List.mem_cons_of_mem _ hm)
    simp [slotOf, h n List.mem_cons_self, hne, ih (fun m hm => h m (List.mem_cons_of_mem _ hm)) hn']
    omega

theorem slotOf_unused : slotOf name (List.replicate k unused) = 0 := by
  cases k with
  | zero => rfl
  | succ k => simp [List.replicate_succ, slotOf, unused]

/-- A name that is there gets its slot again. -/
theorem report_old (h : ∀ n ∈ ns, (f n).used = true ∧ (f n).name = n) (hnd : ns.Nodup)
    (hr : r.name ∈ ns) : report (ns.map f ++ slots) r =
      ns.map (fun n => if r.name = n then r.slot else f n) ++ slots := by
  obtain ⟨ns₁, ns₂, rfl⟩ := List.append_of_mem hr
  have hnot : r.name ∉ ns₁ ∧ r.name ∉ ns₂ := by
    simp only [List.nodup_append, List.nodup_cons] at hnd
    exact ⟨fun hm => hnd.2.2 _ hm _ List.mem_cons_self rfl, hnd.2.1.1⟩
  have hi : slotOf r.name ((ns₁ ++ r.name :: ns₂).map f ++ slots) = ns₁.length := by
    rw [List.map_append, List.append_assoc,
      slotOf_append (fun n hn => h n (List.mem_append_left _ hn)) hnot.1]
    have := h r.name (by simp)
    simp [slotOf, this]
  have hne (l : List Str) (hl : r.name ∉ l) :
      l.map (fun n => if r.name = n then r.slot else f n) = l.map f := by
    refine List.map_congr_left fun n hn => if_neg fun he => ?_
    subst he
    exact hl hn
  simp only [report, hi]
  rw [if_neg (by simp)]
  simp [hne _ hnot.1, hne _ hnot.2]

/-- A new name gets the first slot that is not in use, if there is one. -/
theorem report_new (h : ∀ n ∈ ns, (f n).used = true ∧ (f n).name = n) (hr : r.name ∉ ns) :
    report (ns.map f ++ List.replicate k unused) r =
      if k = 0 then ns.map f else ns.map f ++ r.slot :: List.replicate (k - 1) unused := by
  have hi : slotOf r.name (ns.map f ++ List.replicate k unused) = ns.length := by
    rw [slotOf_append h hr, slotOf_unused, Nat.add_zero]
  simp only [report, hi]
  cases k with
  | zero => simp
  | succ k =>
    rw [if_neg (by simp), if_neg (by simp)]
    simp [List.replicate_succ]

/-- **The table.**  It has the first 24 names that were reported, in that order, each with
    what was last reported under it. -/
theorem reports_eq (hs : ∀ r ∈ rs, r.Short) :
    reports rs = ((names rs).take DROID_LKM_MISC_REPORT_SLOTS).map (latest rs) ++
      List.replicate (DROID_LKM_MISC_REPORT_SLOTS - (names rs).length) unused := by
  induction rs using List.reverseRecOn with
  | nil => rfl
  | append_singleton rs r ih =>
    have hs' : ∀ q ∈ rs, q.Short := fun q hq => hs q (by simp [hq])
    have hf : ∀ n ∈ (names rs).take DROID_LKM_MISC_REPORT_SLOTS,
        (latest rs n).used = true ∧ (latest rs n).name = n :=
      fun n hn => latest_spec hs' (List.mem_of_mem_take hn)
    have hlatest (l : List Str) (hl : r.name ∉ l) :
        l.map (latest (rs ++ [r])) = l.map (latest rs) := by
      refine List.map_congr_left fun n hn => ?_
      rw [latest_concat, if_neg]
      rintro rfl
      exact hl hn
    rw [reports_concat, ih hs']
    by_cases hmem : r.name ∈ (names rs).take DROID_LKM_MISC_REPORT_SLOTS
    · rw [report_old hf ((names_nodup rs).sublist (List.take_sublist _ _)) hmem, names_concat,
        if_pos (List.mem_of_mem_take hmem)]
      congr 1
      exact List.map_congr_left fun n _ => latest_concat.symm
    rw [report_new hf hmem]
    by_cases hfull : DROID_LKM_MISC_REPORT_SLOTS ≤ (names rs).length
    · -- no slot is left: the report is dropped
      have hzero : DROID_LKM_MISC_REPORT_SLOTS - (names rs).length = 0 := by omega
      have htake : (names (rs ++ [r])).take DROID_LKM_MISC_REPORT_SLOTS =
          (names rs).take DROID_LKM_MISC_REPORT_SLOTS := by
        rw [names_concat]
        split
        · rfl
        · exact List.take_append_of_le_length hfull
      have hlen : DROID_LKM_MISC_REPORT_SLOTS - (names (rs ++ [r])).length = 0 := by
        rw [names_concat]
        split
        · exact hzero
        · simp
          omega
      rw [if_pos hzero, htake, hlen, hlatest _ hmem]
      simp
    · have htake : (names rs).take DROID_LKM_MISC_REPORT_SLOTS = names rs :=
        List.take_of_length_le (by omega)
      rw [htake] at hmem ⊢
      have hlast : latest (rs ++ [r]) r.name = r.slot := by rw [latest_concat, if_pos rfl]
      rw [if_neg (by omega), names_concat, if_neg hmem, List.take_of_length_le (by simp; omega),
        List.map_append, hlatest _ hmem, List.map_singleton, hlast, List.append_assoc]
      simp [Nat.sub_sub]

/-- The features that were last reported in a state are counted. -/
theorem reportCount_eq (hs : ∀ r ∈ rs, r.Short) (state : Str) :
    reportCount (reports rs) state =
      ((names rs).take DROID_LKM_MISC_REPORT_SLOTS).countP fun n =>
        (latest rs n).state == state := by
  have hnone (k : ℕ) : (List.replicate k unused).countP (fun s => s.used && s.state == state) = 0 :=
    List.countP_eq_zero.2 fun s h => by simp [List.eq_of_mem_replicate h, unused]
  rw [reportCount, reports_eq hs, List.countP_append, hnone, Nat.add_zero, List.countP_map]
  refine List.countP_congr fun n hn => ?_
  simp [(latest_spec hs (List.mem_of_mem_take hn)).1]

/-! ## The text -/

/-- Nothing that is stored is longer than its array allows. -/
structure Slot.Fits (s : Slot) : Prop where
  name : s.name.length < DROID_LKM_MISC_REPORT_NAME
  state : s.state.length < DROID_LKM_MISC_REPORT_STATE
  detail : s.detail.length < DROID_LKM_MISC_REPORT_DETAIL

theorem strscpy_lt (src : Str) {size : ℕ} (hs : 0 < size) : (strscpy src size).length < size := by
  rw [strscpy, List.length_take]
  omega

theorem unused_fits : unused.Fits := ⟨by decide, by decide, by decide⟩

theorem latest_fits (rs : List Report) (name : Str) : (latest rs name).Fits := by
  induction rs using List.reverseRecOn with
  | nil => exact unused_fits
  | append_singleton rs r ih =>
    rw [latest_concat]
    split
    · exact ⟨strscpy_lt _ (by decide), strscpy_lt _ (by decide), strscpy_lt _ (by decide)⟩
    · exact ih

theorem length_padRight (w : ℕ) (s : Str) : (padRight w s).length = max w s.length := by
  rw [padRight, List.length_append, List.length_replicate]
  omega

theorem Slot.Fits.length_le {s : Slot} (h : s.Fits) : (statusLine s).length ≤ 115 := by
  have h₁ : s.name.length < 28 := h.name
  have h₂ : s.state.length < 14 := h.state
  have h₃ : s.detail.length < 72 := h.detail
  simp only [statusLine, List.length_append, List.length_cons, List.length_nil, length_padRight]
  omega

/-- Where there is room for all of them, the loop puts one line after the other. -/
theorem reportTextFrom_fits {size : ℕ} {text : Str} (hf : ∀ s ∈ slots, s.Fits)
    (hl : text.length + 115 * slots.length < size) :
    reportTextFrom size text slots = text ++ (slots.filter (·.used)).flatMap statusLine := by
  induction slots generalizing text with
  | nil => simp [reportTextFrom]
  | cons s slots ih =>
    have hline := (hf s List.mem_cons_self).length_le
    have hf' : ∀ q ∈ slots, q.Fits := fun q hq => hf q (List.mem_cons_of_mem _ hq)
    rw [List.length_cons] at hl
    cases hu : s.used with
    | false =>
      rw [reportTextFrom, if_pos (by simp [hu]), ih hf' (by omega),
        List.filter_cons_of_neg (by simp [hu])]
    | true =>
      have htake : (statusLine s).take (size - text.length - 1) = statusLine s :=
        List.take_of_length_le (by omega)
      rw [reportTextFrom, if_neg (by simp [hu]), if_neg (by omega), htake,
        ih hf' (by rw [List.length_append]; omega), List.filter_cons_of_pos hu,
        List.flatMap_cons, List.append_assoc]

/-- A buffer with room for 24 lines has a line for each of the first 24 names that were reported,
    and nothing else. -/
theorem reportText_lines (hs : ∀ r ∈ rs, r.Short) {size : ℕ}
    (hsize : 115 * DROID_LKM_MISC_REPORT_SLOTS < size) :
    reportText (reports rs) size =
      ((names rs).take DROID_LKM_MISC_REPORT_SLOTS).flatMap fun n => statusLine (latest rs n) := by
  have hfits : ∀ s ∈ reports rs, s.Fits := by
    rw [reports_eq hs]
    intro s h
    rcases List.mem_append.1 h with h | h
    · obtain ⟨n, -, rfl⟩ := List.mem_map.1 h
      exact latest_fits rs n
    · rw [List.eq_of_mem_replicate h]
      exact unused_fits
  have hused : (reports rs).filter (·.used) =
      ((names rs).take DROID_LKM_MISC_REPORT_SLOTS).map (latest rs) := by
    rw [reports_eq hs, List.filter_append, List.filter_eq_self.2, List.filter_eq_nil_iff.2,
      List.append_nil]
    · intro s h
      rw [List.eq_of_mem_replicate h]
      decide
    · intro s h
      obtain ⟨n, hn, rfl⟩ := List.mem_map.1 h
      exact (latest_spec hs (List.mem_of_mem_take hn)).1
  have hroom : ([] : Str).length + 115 * (reports rs).length < size := by
    rwa [length_reports, List.length_nil, Nat.zero_add]
  rw [reportText, reportTextFrom_fits hfits hroom, hused, List.nil_append, List.flatMap_map]

/-- **The text.**  In a page there is room for a line for each of the first 24 names that
    were reported, with what was last reported under it, and there is nothing else. -/
theorem status_text (hs : ∀ r ∈ rs, r.Short) {pageSize : ℕ} (hp : 4096 ≤ pageSize) :
    reportText (reports rs) pageSize =
      ((names rs).take DROID_LKM_MISC_REPORT_SLOTS).flatMap fun n => statusLine (latest rs n) :=
  reportText_lines hs (Nat.lt_of_lt_of_le (by decide) hp)

/-- Two names, one of them reported again. -/
theorem status_text_two :
    reportText (reports [⟨[120], [111], none⟩, ⟨[117], [111], none⟩, ⟨[120], [114], some [49]⟩])
        4096 =
      statusLine ⟨true, [120], [114], [49]⟩ ++ statusLine ⟨true, [117], [111], []⟩ :=
  (status_text (fun r hr => by
    simp only [List.mem_cons, List.not_mem_nil, or_false] at hr
    rcases hr with rfl | rfl | rfl <;> exact (by decide : 1 < 28)) (Nat.le_refl 4096)).trans
      (by decide)

end DroidLkm.Misc
