import Mathlib.Order.Bounds.Basic
import NtAdmin.Lib.SmallestDistinct
import NtAdmin.Sched.Common.RunList

/-! The list of runs keeps the earliest run times, with what all calls for them ask for. -/
namespace NtAdmin.Sched.Common
open Lib

variable {lstrcmpi : String → String → ℤ} {ptszJobName : Option String} {c : RunCall}
  {cs : List RunCall} {r : CRun} {N t : ℕ}

/-! ### What the calls for one run time ask for -/

/-- What the calls for the time `t` have in one argument. -/
def valuesAt (f : RunCall → ℕ) (cs : List RunCall) (t : ℕ) : Set ℕ :=
  {k | ∃ c ∈ cs, c.ftRun = t ∧ f c = k}

theorem valuesAt_of_ne (f : RunCall → ℕ) (h : c.ftRun ≠ t) :
    valuesAt f (cs ++ [c]) t = valuesAt f cs t := by
  ext k
  simp only [valuesAt, Set.mem_ofPred_eq, List.mem_append, List.mem_singleton]
  constructor
  · rintro ⟨c', hc' | rfl, ht, hk⟩
    · exact ⟨c', hc', ht, hk⟩
    · exact absurd ht h
  · rintro ⟨c', hc', ht, hk⟩
    exact ⟨c', Or.inl hc', ht, hk⟩

theorem valuesAt_of_eq (f : RunCall → ℕ) (h : c.ftRun = t) :
    valuesAt f (cs ++ [c]) t = insert (f c) (valuesAt f cs t) := by
  ext k
  simp only [valuesAt, Set.mem_ofPred_eq, List.mem_append, List.mem_singleton, Set.mem_insert_iff]
  constructor
  · rintro ⟨c', hc' | rfl, ht, hk⟩
    · exact Or.inr ⟨c', hc', ht, hk⟩
    · exact Or.inl hk.symm
  · rintro (rfl | ⟨c', hc', ht, hk⟩)
    · exact ⟨c, Or.inr rfl, h, rfl⟩
    · exact ⟨c', Or.inl hc', ht, hk⟩

theorem valuesAt_empty (f : RunCall → ℕ) (h : ∀ c ∈ cs, c.ftRun ≠ t) : valuesAt f cs t = ∅ := by
  ext k
  simp only [valuesAt, Set.mem_ofPred_eq, Set.mem_empty_iff_false, iff_false]
  rintro ⟨c, hc, ht, -⟩
  exact h c hc ht

/-- The run has the least restrictive of what all calls for its time ask for, and the flags and the
maximal run time of one of them. -/
structure MergedFrom (cs : List RunCall) (r : CRun) : Prop where
  kill : IsLeast (valuesAt RunCall.ftKillTime cs r.m_ft) r.m_ftKill
  wait : IsLeast (valuesAt RunCall.wIdleWait cs r.m_ft) r.m_wIdleWait
  deadline : IsGreatest (valuesAt RunCall.ftDeadline cs r.m_ft) r.m_ftDeadline
  job : ∃ c ∈ cs, c.dwJobFlags = r.m_rgFlags ∧ c.dwMaxRunTime = r.m_dwMaxRunTime

theorem MergedFrom.of_ne (h : MergedFrom cs r) (hne : c.ftRun ≠ r.m_ft) :
    MergedFrom (cs ++ [c]) r := by
  obtain ⟨c', hc', hjob⟩ := h.job
  constructor
  · rw [valuesAt_of_ne _ hne]
    exact h.kill
  · rw [valuesAt_of_ne _ hne]
    exact h.wait
  · rw [valuesAt_of_ne _ hne]
    exact h.deadline
  · exact ⟨c', List.mem_append_left [c] hc', hjob⟩

theorem mergeInto_ft (c : RunCall) (r : CRun) : (c.mergeInto r).m_ft = r.m_ft := rfl

theorem mergeInto_kill (c : RunCall) (r : CRun) :
    (c.mergeInto r).m_ftKill = min c.ftKillTime r.m_ftKill := by
  show (if c.ftKillTime < r.m_ftKill then c.ftKillTime else r.m_ftKill) = _
  split_ifs <;> omega

theorem mergeInto_wait (c : RunCall) (r : CRun) :
    (c.mergeInto r).m_wIdleWait = min c.wIdleWait r.m_wIdleWait :=
  min_comm r.m_wIdleWait c.wIdleWait

theorem mergeInto_deadline (c : RunCall) (r : CRun) :
    (c.mergeInto r).m_ftDeadline = max c.ftDeadline r.m_ftDeadline := by
  show (if r.m_ftDeadline < c.ftDeadline then c.ftDeadline else r.m_ftDeadline) = _
  split_ifs <;> omega

theorem MergedFrom.merge (h : MergedFrom cs r) (heq : c.ftRun = r.m_ft) :
    MergedFrom (cs ++ [c]) (c.mergeInto r) := by
  obtain ⟨c', hc', hjob⟩ := h.job
  constructor
  · rw [mergeInto_ft, mergeInto_kill, valuesAt_of_eq _ heq]
    exact h.kill.insert c.ftKillTime
  · rw [mergeInto_ft, mergeInto_wait, valuesAt_of_eq _ heq]
    exact h.wait.insert c.wIdleWait
  · rw [mergeInto_ft, mergeInto_deadline, valuesAt_of_eq _ heq]
    exact h.deadline.insert c.ftDeadline
  · exact ⟨c', List.mem_append_left [c] hc', hjob⟩

theorem mergedFrom_newRun (h : ∀ c' ∈ cs, c'.ftRun ≠ c.ftRun) :
    MergedFrom (cs ++ [c]) (c.newRun ptszJobName) := by
  have hvalues : ∀ f : RunCall → ℕ, valuesAt f (cs ++ [c]) c.ftRun = {f c} := by
    intro f
    rw [valuesAt_of_eq f rfl, valuesAt_empty f h, insert_empty_eq]
  constructor
  · rw [show (c.newRun ptszJobName).m_ft = c.ftRun from rfl, hvalues]
    exact isLeast_singleton
  · rw [show (c.newRun ptszJobName).m_ft = c.ftRun from rfl, hvalues]
    exact isLeast_singleton
  · rw [show (c.newRun ptszJobName).m_ft = c.ftRun from rfl, hvalues]
    exact isGreatest_singleton
  · exact ⟨c, List.mem_append_right cs (List.mem_singleton_self c), rfl, rfl⟩

/-! ### The walk -/

theorem sameName_self (hcmp : ∀ s, lstrcmpi s s = 0) : sameName lstrcmpi ptszJobName ptszJobName =
    true := by
  cases ptszJobName with
  | none => rfl
  | some name => exact decide_eq_true (hcmp name)

/-- In an ascending list the walk finds the run, or the place for it. -/
theorem walkBack_spec (hcmp : ∀ s, lstrcmpi s s = 0) (before behind : List CRun)
    (hsorted : ((before.reverse ++ behind).map CRun.m_ft).Pairwise (· < ·))
    (hnamed : ∀ r ∈ before, r.m_ptszJobName = ptszJobName)
    (hzero : c.ftRun ≠ 0 ∨ ∀ r ∈ before, r.m_ft ≠ 0) (hbehind : ∀ r ∈ behind, c.ftRun < r.m_ft) :
    (∃ B r A, before.reverse ++ behind = B ++ r :: A ∧ r.m_ft = c.ftRun ∧
      walkBack lstrcmpi ptszJobName c before behind = .inl (B ++ c.mergeInto r :: A)) ∨
    ∃ B A, before.reverse ++ behind = B ++ A ∧
      walkBack lstrcmpi ptszJobName c before behind = .inr (B, A) ∧
      (∀ r ∈ B, r.m_ft < c.ftRun) ∧ ∀ r ∈ A, c.ftRun < r.m_ft := by
  induction before generalizing behind with
  | nil => exact Or.inr ⟨[], behind, rfl, rfl, fun r hr => absurd hr List.not_mem_nil, hbehind⟩
  | cons pRun before ih =>
    have hassoc : (pRun :: before).reverse ++ behind = before.reverse ++ pRun :: behind := by
      rw [List.reverse_cons, List.append_assoc, List.singleton_append]
    have hbelow : pRun.m_ft < c.ftRun → ∀ r ∈ (pRun :: before).reverse, r.m_ft < c.ftRun := by
      intro hlt r hr
      rw [List.mem_reverse] at hr
      rcases List.mem_cons.mp hr with rfl | hr
      · exact hlt
      · rw [hassoc, List.map_append, List.map_cons, List.pairwise_append] at hsorted
        exact (hsorted.2.2 _ (List.mem_map_of_mem (List.mem_reverse.mpr hr)) _
          List.mem_cons_self).trans hlt
    rw [walkBack]
    split_ifs with hhead hsame hlt
    · refine Or.inr ⟨_, _, rfl, rfl, hbelow ?_, hbehind⟩
      have hne : c.ftRun ≠ 0 := hzero.resolve_right fun h => h pRun List.mem_cons_self hhead
      omega
    · exact Or.inl ⟨before.reverse, pRun, behind, hassoc, hsame.1, rfl⟩
    · exact Or.inr ⟨_, _, rfl, rfl, hbelow hlt, hbehind⟩
    · have hname : sameName lstrcmpi pRun.m_ptszJobName ptszJobName = true := by
        rw [hnamed pRun List.mem_cons_self]
        exact sameName_self hcmp
      have hne : pRun.m_ft ≠ c.ftRun := fun h => hsame ⟨h, hname⟩
      rw [hassoc] at hsorted ⊢
      refine ih (pRun :: behind) hsorted (fun r hr => hnamed r (List.mem_cons_of_mem _ hr))
        (hzero.imp_right fun h r hr => h r (List.mem_cons_of_mem _ hr)) fun r hr => ?_
      rcases List.mem_cons.mp hr with rfl | hr
      · omega
      · exact hbehind r hr

/-! ### The list after each call -/

/-- What the list is after the calls `cs`. -/
structure RunsOf (ptszJobName : Option String) (N : ℕ) (cs : List RunCall) (l : TimeRunList) :
    Prop where
  keeps : KeepsSmallest N (cs.map RunCall.ftRun).toFinset (l.runs.map CRun.m_ft)
  count : l.count = l.runs.length
  merged : ∀ r ∈ l.runs, MergedFrom cs r
  named : ∀ r ∈ l.runs, r.m_ptszJobName = ptszJobName

theorem toFinset_append (cs : List RunCall) (c : RunCall) :
    ((cs ++ [c]).map RunCall.ftRun).toFinset = insert c.ftRun (cs.map RunCall.ftRun).toFinset := by
  ext t
  simp

variable {l : TimeRunList}

theorem ne_of_not_mem (h : c.ftRun ∉ (cs.map RunCall.ftRun).toFinset) :
    ∀ c' ∈ cs, c'.ftRun ≠ c.ftRun := fun c' hc' heq =>
  h (List.mem_toFinset.mpr (List.mem_map.mpr ⟨c', hc', heq⟩))

/-- The new run and the others, which are for other times. -/
theorem RunsOf.place {B A A' : List CRun} (h : RunsOf ptszJobName N cs l)
    (hruns : l.runs = B ++ A) (hsub : A'.Sublist A) (hB : ∀ r ∈ B, r.m_ft < c.ftRun)
    (hA : ∀ r ∈ A, c.ftRun < r.m_ft) (hnew : c.ftRun ∉ (cs.map RunCall.ftRun).toFinset) :
    (∀ r ∈ B ++ c.newRun ptszJobName :: A', MergedFrom (cs ++ [c]) r) ∧
      ∀ r ∈ B ++ c.newRun ptszJobName :: A', r.m_ptszJobName = ptszJobName := by
  have hmem : ∀ r ∈ B ++ c.newRun ptszJobName :: A',
      r = c.newRun ptszJobName ∨ r ∈ l.runs ∧ c.ftRun ≠ r.m_ft := by
    intro r hr
    rw [hruns]
    rcases List.mem_append.mp hr with hrB | hrA
    · exact Or.inr ⟨List.mem_append_left A hrB, (hB r hrB).ne'⟩
    · rcases List.mem_cons.mp hrA with rfl | hrA
      · exact Or.inl rfl
      · have hrA' := hsub.subset hrA
        exact Or.inr ⟨List.mem_append_right B hrA', (hA r hrA').ne⟩
  constructor
  · intro r hr
    rcases hmem r hr with rfl | ⟨hold, hne⟩
    · exact mergedFrom_newRun (ne_of_not_mem hnew)
    · exact (h.merged r hold).of_ne hne
  · intro r hr
    rcases hmem r hr with rfl | ⟨hold, -⟩
    · rfl
    · exact h.named r hold

/-- A run of the list takes over what the call asks for. -/
theorem RunsOf.merge {B A : List CRun} (h : RunsOf ptszJobName N cs l)
    (hruns : l.runs = B ++ r :: A) (heq : r.m_ft = c.ftRun) :
    RunsOf ptszJobName N (cs ++ [c]) { l with runs := B ++ c.mergeInto r :: A } := by
  have htimes : (B ++ c.mergeInto r :: A).map CRun.m_ft = l.runs.map CRun.m_ft := by
    rw [hruns, List.map_append, List.map_append]
    rfl
  have hsorted := h.keeps.ascending
  rw [hruns, List.map_append, List.map_cons, List.pairwise_append, List.pairwise_cons] at hsorted
  obtain ⟨-, ⟨hA, -⟩, hB⟩ := hsorted
  have hr : r ∈ l.runs := by
    rw [hruns]
    exact List.mem_append_right B List.mem_cons_self
  have hmem : ∀ r' ∈ B ++ c.mergeInto r :: A,
      r' = c.mergeInto r ∨ r' ∈ l.runs ∧ c.ftRun ≠ r'.m_ft := by
    intro r' hr'
    rw [hruns, ← heq]
    rcases List.mem_append.mp hr' with hrB | hrA
    · exact Or.inr ⟨List.mem_append_left _ hrB,
        (hB _ (List.mem_map_of_mem hrB) _ List.mem_cons_self).ne'⟩
    · rcases List.mem_cons.mp hrA with rfl | hrA
      · exact Or.inl rfl
      · exact Or.inr ⟨List.mem_append_right B (List.mem_cons_of_mem r hrA),
          (hA _ (List.mem_map_of_mem hrA)).ne⟩
  constructor
  · rw [toFinset_append, htimes]
    refine h.keeps.insert_of_mem (heq ▸ List.mem_map_of_mem hr)
  · show l.count = (B ++ c.mergeInto r :: A).length
    rw [h.count, hruns, List.length_append, List.length_append]
    rfl
  · intro r' hr'
    rcases hmem r' hr' with rfl | ⟨hold, hne⟩
    · exact (h.merged r hr).merge heq.symm
    · exact (h.merged r' hold).of_ne hne
  · intro r' hr'
    rcases hmem r' hr' with rfl | ⟨hold, -⟩
    · exact h.named r hr
    · exact h.named r' hold

/-- A call for a time that is not taken for the head of the list. -/
theorem RunsOf.addSorted (hcmp : ∀ s, lstrcmpi s s = 0) (h : RunsOf ptszJobName N cs l)
    (hzero : c.ftRun ≠ 0 ∨ ∀ r ∈ l.runs, r.m_ft ≠ 0) :
    RunsOf ptszJobName N (cs ++ [c]) (addSorted lstrcmpi ptszJobName N l c).2 := by
  have hwalk := @walkBack_spec _ ptszJobName c hcmp l.runs.reverse []
    (by rw [List.reverse_reverse, List.append_nil]; exact h.keeps.ascending)
    (fun r hr => h.named r (List.mem_reverse.mp hr))
    (hzero.imp_right fun h r hr => h r (List.mem_reverse.mp hr))
    (fun r hr => absurd hr List.not_mem_nil)
  rw [List.reverse_reverse, List.append_nil] at hwalk
  unfold Common.addSorted
  rcases hwalk with ⟨B, r, A, hruns, heq, hrun⟩ | ⟨B, A, hruns, hrun, hB, hA⟩
  · rw [hrun]
    exact h.merge hruns heq
  rw [hrun]
  have hkeeps := h.keeps
  rw [hruns, List.map_append] at hkeeps
  have hBt : ∀ t ∈ B.map CRun.m_ft, t < c.ftRun := by
    intro t ht
    obtain ⟨r, hr, rfl⟩ := List.mem_map.mp ht
    exact hB r hr
  have hAt : ∀ t ∈ A.map CRun.m_ft, c.ftRun < t := by
    intro t ht
    obtain ⟨r, hr, rfl⟩ := List.mem_map.mp ht
    exact hA r hr
  have hnot : c.ftRun ∉ B.map CRun.m_ft ++ A.map CRun.m_ft := by
    intro hin
    rcases List.mem_append.mp hin with hin | hin
    · exact (hBt _ hin).false
    · exact (hAt _ hin).false
  have hlen : (B.map CRun.m_ft ++ A.map CRun.m_ft).length = l.count := by
    rw [h.count, hruns, List.length_append, List.length_append, List.length_map, List.length_map]
  by_cases hfull : N ≤ l.count
  · by_cases hlast : A = []
    · simp only [if_pos hfull, if_pos hlast]
      subst hlast
      rw [List.append_nil] at hruns
      rw [List.map_nil, List.append_nil] at hkeeps hlen
      rw [← hruns] at hB hBt hkeeps hlen
      exact {
        keeps := by
          rw [toFinset_append]
          exact hkeeps.insert_of_above hBt (by omega)
        count := h.count
        merged := fun r hr => (h.merged r hr).of_ne (hB r hr).ne'
        named := h.named }
    · simp only [if_pos hfull, if_neg hlast]
      obtain ⟨r, hr⟩ := List.exists_mem_of_ne_nil A hlast
      have hrt : r.m_ft ∈ B.map CRun.m_ft ++ A.map CRun.m_ft :=
        List.mem_append_right _ (List.mem_map_of_mem hr)
      have hnew := hkeeps.not_mem hnot (Or.inr ⟨_, hrt, hA r hr⟩)
      obtain ⟨hmerged, hnamed⟩ := h.place hruns (List.dropLast_sublist A) hB hA hnew
      exact {
        keeps := by
          rw [toFinset_append, List.map_append, List.map_cons, List.map_dropLast]
          exact hkeeps.insert_of_full hBt hAt (by simpa using hlast) (by omega)
        count := by
          have hpos := List.length_pos_of_mem hr
          rw [h.count, hruns]
          simp only [List.length_append, List.length_cons, List.length_dropLast]
          omega
        merged := hmerged
        named := hnamed }
  · simp only [if_neg hfull]
    have hnew := hkeeps.not_mem hnot (Or.inl (by omega))
    obtain ⟨hmerged, hnamed⟩ := h.place hruns (List.Sublist.refl A) hB hA hnew
    exact {
      keeps := by
        rw [toFinset_append, List.map_append, List.map_cons]
        exact hkeeps.insert_of_room hBt hAt (by omega)
      count := by
        rw [h.count, hruns]
        simp only [List.length_append, List.length_cons]
        omega
      merged := hmerged
      named := hnamed }

end NtAdmin.Sched.Common
