import NtAdmin.Sched.Common.RunListSpec

/-! When the list of runs is the same for every order of the calls. -/
namespace NtAdmin.Sched.Common
open Lib

variable {lstrcmpi : String → String → ℤ} {ptszJobName : Option String} {c c' : RunCall}
  {cs cs' : List RunCall} {N : ℕ} {l l' : TimeRunList}

theorem addAll_append (cs : List RunCall) (c : RunCall) :
    addAll lstrcmpi ptszJobName N (cs ++ [c]) =
      (addSorted lstrcmpi ptszJobName N (addAll lstrcmpi ptszJobName N cs) c).2 := by
  unfold addAll
  rw [List.foldl_append]
  rfl

/-- What a call asks for besides its time. -/
def RunCall.asks (c : RunCall) : ℕ × ℕ × ℕ := (c.ftDeadline, c.ftKillTime, c.wIdleWait)

/-- What a run keeps of the calls for it. -/
def CRun.key (r : CRun) : ℕ × ℕ × ℕ × ℕ := (r.m_ft, r.m_ftDeadline, r.m_ftKill, r.m_wIdleWait)

def zeroCalls (cs : List RunCall) : List RunCall := cs.filter fun c => decide (c.ftRun = 0)

theorem mem_zeroCalls : c ∈ zeroCalls cs ↔ c ∈ cs ∧ c.ftRun = 0 := by
  simp [zeroCalls]

theorem zeroCalls_append_zero (h : c.ftRun = 0) :
    (zeroCalls (cs ++ [c])).length = (zeroCalls cs).length + 1 := by
  unfold zeroCalls
  rw [List.filter_append, List.length_append, List.filter_cons_of_pos (by simpa using h)]
  rfl

theorem zeroCalls_append (h : c.ftRun ≠ 0) : zeroCalls (cs ++ [c]) = zeroCalls cs := by
  unfold zeroCalls
  rw [List.filter_append, List.filter_cons_of_neg (by simpa using h), List.filter_nil,
    List.append_nil]

/-- The time zero, that marks the head of the list, is asked for once at most, or there is no place
for a second run with it and nothing that it could change. -/
def ZeroOnce (N : ℕ) (cs : List RunCall) : Prop :=
  N = 0 ∨ (zeroCalls cs).length ≤ 1 ∨
    N = 1 ∧ ∀ c ∈ zeroCalls cs, ∀ c' ∈ zeroCalls cs, c.asks = c'.asks

theorem ZeroOnce.of_append (h : ZeroOnce N (cs ++ [c])) : ZeroOnce N cs := by
  have hsub : (zeroCalls cs).Sublist (zeroCalls (cs ++ [c])) := by
    unfold zeroCalls
    rw [List.filter_append]
    exact List.sublist_append_left _ _
  rcases h with hN | hlen | ⟨hN, hsame⟩
  · exact Or.inl hN
  · exact Or.inr (Or.inl (hsub.length_le.trans hlen))
  · exact Or.inr (Or.inr ⟨hN, fun c hc c' hc' => hsame c (hsub.subset hc) c' (hsub.subset hc')⟩)

/-! ### With the time zero once -/

theorem mergeInto_eq_self {r : CRun} (hkill : r.m_ftKill = c.ftKillTime)
    (hwait : r.m_wIdleWait = c.wIdleWait) (hdeadline : r.m_ftDeadline = c.ftDeadline) :
    c.mergeInto r = r := by
  cases r
  simp only at hkill hwait hdeadline
  subst hkill hwait hdeadline
  simp [RunCall.mergeInto, CRun.reduceWaitTo, CRun.advanceKillTime, CRun.relaxDeadline]

/-- A second call for the time zero changes nothing where it asks for nothing else. -/
theorem RunsOf.addSorted_zero (h : RunsOf ptszJobName 1 cs l) {r : CRun} (hr : r ∈ l.runs)
    (hrzero : r.m_ft = 0) (hc : c.ftRun = 0)
    (hsame : ∀ c' ∈ cs, c'.ftRun = 0 → c'.asks = c.asks) :
    RunsOf ptszJobName 1 (cs ++ [c]) (Common.addSorted lstrcmpi ptszJobName 1 l c).2 := by
  have hlen := h.keeps.length_le
  rw [List.length_map] at hlen
  obtain ⟨r', hruns⟩ := List.length_eq_one_iff.mp
    (le_antisymm hlen (List.length_pos_of_mem hr))
  obtain rfl : r = r' := by
    rw [hruns] at hr
    exact List.mem_singleton.mp hr
  have hrun : (Common.addSorted lstrcmpi ptszJobName 1 l c).2 = l := by
    have hfull : 1 ≤ l.count := by
      rw [h.count, hruns]
      exact le_rfl
    have hwalk : walkBack lstrcmpi ptszJobName c [r] [] = .inr ([r], []) := if_pos hrzero
    simp only [Common.addSorted, hruns, List.reverse_singleton, hwalk, if_pos hfull, if_true]
  rw [hrun]
  have hasks : ∀ c' ∈ cs, c'.ftRun = r.m_ft → c'.asks = c.asks := fun c' hc' ht =>
    hsame c' hc' (ht.trans hrzero)
  have hself : c.mergeInto r = r := by
    have hmerged := h.merged r hr
    obtain ⟨⟨c₁, hc₁, ht₁, hk₁⟩, -⟩ := hmerged.kill
    obtain ⟨⟨c₂, hc₂, ht₂, hk₂⟩, -⟩ := hmerged.wait
    obtain ⟨⟨c₃, hc₃, ht₃, hk₃⟩, -⟩ := hmerged.deadline
    have h₁ := hasks c₁ hc₁ ht₁
    have h₂ := hasks c₂ hc₂ ht₂
    have h₃ := hasks c₃ hc₃ ht₃
    simp only [RunCall.asks, Prod.mk.injEq] at h₁ h₂ h₃
    exact mergeInto_eq_self (hk₁ ▸ h₁.2.1) (hk₂ ▸ h₂.2.2) (hk₃ ▸ h₃.1)
  exact {
    keeps := by
      rw [toFinset_append]
      exact h.keeps.insert_of_mem (by rw [hc, ← hrzero]; exact List.mem_map_of_mem hr)
    count := h.count
    merged := fun r' hr' => by
      obtain rfl : r' = r := by
        rw [hruns] at hr'
        exact List.mem_singleton.mp hr'
      have hmerge := (h.merged r' hr').merge (c := c) (hc.trans hrzero.symm)
      rwa [hself] at hmerge
    named := h.named }

theorem runsOf_addAll (hcmp : ∀ s, lstrcmpi s s = 0) (h : ZeroOnce N cs) :
    RunsOf ptszJobName N cs (addAll lstrcmpi ptszJobName N cs) := by
  induction cs using List.reverseRecOn with
  | nil =>
    exact { keeps := KeepsSmallest.nil N
            count := rfl
            merged := fun r hr => absurd hr List.not_mem_nil
            named := fun r hr => absurd hr List.not_mem_nil }
  | append_singleton cs c ih =>
    have hcs := ih h.of_append
    rw [addAll_append]
    by_cases hzero : c.ftRun ≠ 0 ∨ ∀ r ∈ (addAll lstrcmpi ptszJobName N cs).runs, r.m_ft ≠ 0
    · exact hcs.addSorted hcmp hzero
    push Not at hzero
    obtain ⟨hc, r, hr, hrzero⟩ := hzero
    obtain ⟨⟨c', hc', ht, -⟩, -⟩ := (hcs.merged r hr).kill
    have hone : N = 1 ∧ ∀ c' ∈ cs, c'.ftRun = 0 → c'.asks = c.asks := by
      have hpos := List.length_pos_of_mem hr
      have hle := hcs.keeps.length_le
      rw [List.length_map] at hle
      have hmem : c ∈ zeroCalls (cs ++ [c]) := mem_zeroCalls.mpr ⟨by simp, hc⟩
      rcases h with hN | hlen | ⟨hN, hsame⟩
      · omega
      · have hold := List.length_pos_of_mem (mem_zeroCalls.mpr ⟨hc', ht.trans hrzero⟩)
        rw [zeroCalls_append_zero hc] at hlen
        omega
      · refine ⟨hN, fun c'' hc'' ht'' => ?_⟩
        exact hsame c'' (mem_zeroCalls.mpr ⟨by simp [hc''], ht''⟩) c hmem
    obtain ⟨rfl, hsame⟩ := hone
    exact hcs.addSorted_zero hr hrzero hc hsame

/-! ### The order of the calls -/

theorem valuesAt_perm (f : RunCall → ℕ) (h : cs'.Perm cs) (t : ℕ) :
    valuesAt f cs' t = valuesAt f cs t := by
  unfold valuesAt
  simp only [h.mem_iff]

theorem toFinset_perm (h : cs'.Perm cs) :
    (cs'.map RunCall.ftRun).toFinset = (cs.map RunCall.ftRun).toFinset :=
  List.toFinset_eq_of_perm _ _ (h.map _)

theorem MergedFrom.key_eq {r r' : CRun} (hperm : cs'.Perm cs) (h : MergedFrom cs r)
    (h' : MergedFrom cs' r') (ht : r.m_ft = r'.m_ft) : r.key = r'.key := by
  have hkill := h'.kill
  have hwait := h'.wait
  have hdeadline := h'.deadline
  rw [valuesAt_perm _ hperm, ← ht] at hkill hwait hdeadline
  unfold CRun.key
  rw [ht, h.kill.unique hkill, h.wait.unique hwait, h.deadline.unique hdeadline]

/-- Two lists agree in what their times tell. -/
theorem map_eq_of_times {β : Type} (f : CRun → β) {L L' : List CRun}
    (ht : L.map CRun.m_ft = L'.map CRun.m_ft)
    (hf : ∀ r ∈ L, ∀ r' ∈ L', r.m_ft = r'.m_ft → f r = f r') : L.map f = L'.map f := by
  induction L generalizing L' with
  | nil =>
    cases L' with
    | nil => rfl
    | cons r' L' => exact absurd ht (by simp)
  | cons r L ih =>
    cases L' with
    | nil => exact absurd ht (by simp)
    | cons r' L' =>
      simp only [List.map_cons, List.cons.injEq] at ht ⊢
      refine ⟨hf r List.mem_cons_self r' List.mem_cons_self ht.1, ih ht.2 fun r hr r' hr' => ?_⟩
      exact hf r (List.mem_cons_of_mem _ hr) r' (List.mem_cons_of_mem _ hr')

theorem RunsOf.keys_eq (hperm : cs'.Perm cs) (h : RunsOf ptszJobName N cs l)
    (h' : RunsOf ptszJobName N cs' l') : l'.runs.map CRun.key = l.runs.map CRun.key := by
  have hkeeps := h'.keeps
  rw [toFinset_perm hperm] at hkeeps
  refine map_eq_of_times CRun.key (hkeeps.unique h.keeps) fun r' hr' r hr ht => ?_
  exact ((h.merged r hr).key_eq hperm (h'.merged r' hr') ht.symm).symm

theorem eq_of_key {r r' : CRun} (hkey : r.key = r'.key)
    (hname : r.m_ptszJobName = r'.m_ptszJobName) (hflags : r.m_rgFlags = r'.m_rgFlags)
    (hmax : r.m_dwMaxRunTime = r'.m_dwMaxRunTime) : r = r' := by
  simp only [CRun.key, Prod.mk.injEq] at hkey
  cases r
  cases r'
  simp only at hkey hname hflags hmax
  simp only [hkey, hname, hflags, hmax]

/-- With the same flags and maximal run time in all calls nothing at all differs. -/
theorem RunsOf.eq (hperm : cs'.Perm cs) (h : RunsOf ptszJobName N cs l)
    (h' : RunsOf ptszJobName N cs' l') {flags maxRunTime : ℕ}
    (hjob : ∀ c ∈ cs, c.dwJobFlags = flags ∧ c.dwMaxRunTime = maxRunTime) : l' = l := by
  have hkeys := h.keys_eq hperm h'
  have hruns : l'.runs = l.runs := by
    rw [← List.map_id l'.runs, ← List.map_id l.runs]
    have hkeeps := h'.keeps
    rw [toFinset_perm hperm] at hkeeps
    refine map_eq_of_times id (hkeeps.unique h.keeps) fun r' hr' r hr ht => ?_
    have hkey := (h.merged r hr).key_eq hperm (h'.merged r' hr') ht.symm
    obtain ⟨c, hc, hflags, hmax⟩ := (h.merged r hr).job
    obtain ⟨c', hc', hflags', hmax'⟩ := (h'.merged r' hr').job
    have hc₁ := hjob c hc
    have hc₂ := hjob c' (hperm.mem_iff.mp hc')
    exact eq_of_key hkey.symm ((h'.named r' hr').trans (h.named r hr).symm)
      (hflags'.symm.trans (hc₂.1.trans (hc₁.1.symm.trans hflags)))
      (hmax'.symm.trans (hc₂.2.trans (hc₁.2.symm.trans hmax)))
  cases l
  cases l'
  have hcount := h.count
  have hcount' := h'.count
  simp only at hruns hcount hcount'
  rw [hruns] at hcount'
  rw [hruns, hcount, hcount']

/-! ### With the time zero twice -/

section zeros
variable {Z : List CRun} (hZ : ∀ r ∈ Z, r.m_ft = 0)
include hZ

/-- The walk stops at the last run with the time zero. -/
theorem walkBack_at (behind : List CRun) :
    walkBack lstrcmpi ptszJobName c Z.reverse behind = .inr (Z, behind) := by
  cases hrev : Z.reverse with
  | nil =>
    rw [List.reverse_eq_nil_iff.mp hrev]
    rfl
  | cons r rest =>
    have hr : r ∈ Z := by
      rw [← List.mem_reverse, hrev]
      exact List.mem_cons_self
    rw [walkBack, if_pos (hZ r hr), ← hrev, List.reverse_reverse]

/-- A new one comes behind it. -/
theorem walkBack_zero (hc : c.ftRun = 0) (before behind : List CRun)
    (hbefore : ∀ r ∈ before, r.m_ft ≠ 0) :
    walkBack lstrcmpi ptszJobName c (before ++ Z.reverse) behind =
      .inr (Z, before.reverse ++ behind) := by
  induction before generalizing behind with
  | nil => exact walkBack_at hZ behind
  | cons r before ih =>
    have hr := hbefore r List.mem_cons_self
    rw [List.cons_append, walkBack, if_neg hr, if_neg (by rw [hc]; exact fun h => hr h.1),
      if_neg (by omega), ih (r :: behind) fun r' hr' => hbefore r' (List.mem_cons_of_mem r hr'),
      List.reverse_cons, List.append_assoc, List.singleton_append]

/-- All others come or are merged behind it. -/
theorem walkBack_ne_zero (before behind : List CRun)
    (hbefore : ∀ r ∈ before.reverse ++ behind, r.m_ft ≠ 0) :
    (∃ P, (∀ r ∈ P, r.m_ft ≠ 0) ∧ P.length = (before.reverse ++ behind).length ∧
      walkBack lstrcmpi ptszJobName c (before ++ Z.reverse) behind = .inl (Z ++ P)) ∨
    ∃ B A, before.reverse ++ behind = B ++ A ∧
      walkBack lstrcmpi ptszJobName c (before ++ Z.reverse) behind = .inr (Z ++ B, A) := by
  induction before generalizing behind with
  | nil =>
    refine Or.inr ⟨[], behind, rfl, ?_⟩
    rw [List.nil_append, List.append_nil]
    exact walkBack_at hZ behind
  | cons r before ih =>
    have hassoc : (r :: before).reverse ++ behind = before.reverse ++ r :: behind := by
      rw [List.reverse_cons, List.append_assoc, List.singleton_append]
    have hr : r.m_ft ≠ 0 := hbefore r (by simp)
    rw [List.cons_append, walkBack, if_neg hr]
    split_ifs with hsame hlt
    · refine Or.inl ⟨before.reverse ++ c.mergeInto r :: behind, fun r' hr' => ?_, ?_, ?_⟩
      · rcases List.mem_append.mp hr' with hin | hin
        · exact hbefore r' (by rw [hassoc]; exact List.mem_append_left _ hin)
        · rcases List.mem_cons.mp hin with rfl | hin
          · exact hr
          · exact hbefore r' (List.mem_append_right _ hin)
      · rw [hassoc, List.length_append, List.length_append]
        rfl
      · rw [List.reverse_append, List.reverse_reverse, List.append_assoc]
    · refine Or.inr ⟨(r :: before).reverse, behind, rfl, ?_⟩
      rw [← List.cons_append, List.reverse_append, List.reverse_reverse]
    · rw [hassoc] at hbefore ⊢
      exact ih (r :: behind) hbefore

end zeros

/-- The runs for the time zero are at the front, one for each call as long as there is room. -/
structure ZerosFirst (N k : ℕ) (l : TimeRunList) (Z P : List CRun) : Prop where
  runs : l.runs = Z ++ P
  zeros : ∀ r ∈ Z, r.m_ft = 0
  others : ∀ r ∈ P, r.m_ft ≠ 0
  count : l.count = l.runs.length
  length : Z.length = min k N
  length_le : l.runs.length ≤ N

theorem ZerosFirst.addSorted_zero {k : ℕ} {Z P : List CRun} (h : ZerosFirst N k l Z P)
    (hc : c.ftRun = 0) :
    ∃ Z' P', ZerosFirst N (k + 1) (addSorted lstrcmpi ptszJobName N l c).2 Z' P' := by
  have hwalk := @walkBack_zero lstrcmpi ptszJobName _ _ h.zeros hc
    P.reverse [] fun r hr => h.others r (List.mem_reverse.mp hr)
  rw [← List.reverse_append, ← h.runs, List.reverse_reverse, List.append_nil] at hwalk
  have hcount := h.count
  have hlen := h.length
  have hle := h.length_le
  rw [h.runs, List.length_append] at hcount hle
  have hzeros : ∀ r ∈ Z ++ [c.newRun ptszJobName], r.m_ft = 0 := by
    intro r hr
    rcases List.mem_append.mp hr with hr | hr
    · exact h.zeros r hr
    · rw [List.mem_singleton.mp hr]
      exact hc
  simp only [addSorted, hwalk]
  split_ifs with hfull hlast
  · subst hlast
    rw [List.length_nil] at hcount hle
    exact ⟨Z, [], h.runs, h.zeros, h.others, h.count, by omega, h.length_le⟩
  · have hpos := List.length_pos_of_ne_nil hlast
    refine ⟨Z ++ [c.newRun ptszJobName], P.dropLast, ?_, hzeros, ?_, ?_, ?_, ?_⟩
    · exact (List.append_cons Z _ P.dropLast)
    · exact fun r hr => h.others r ((List.dropLast_sublist P).subset hr)
    · simp only [List.length_append, List.length_cons, List.length_dropLast]
      omega
    · simp only [List.length_append, List.length_singleton]
      omega
    · simp only [List.length_append, List.length_cons, List.length_dropLast]
      omega
  · refine ⟨Z ++ [c.newRun ptszJobName], P, ?_, hzeros, h.others, ?_, ?_, ?_⟩
    · exact (List.append_cons Z _ P)
    · simp only [List.length_append, List.length_cons]
      omega
    · simp only [List.length_append, List.length_singleton]
      omega
    · simp only [List.length_append, List.length_cons]
      omega

theorem ZerosFirst.addSorted {k : ℕ} {Z P : List CRun} (h : ZerosFirst N k l Z P)
    (hc : c.ftRun ≠ 0) : ∃ P', ZerosFirst N k (addSorted lstrcmpi ptszJobName N l c).2 Z P' := by
  have hwalk := @walkBack_ne_zero lstrcmpi ptszJobName c _ h.zeros P.reverse []
    (by simpa using h.others)
  rw [← List.reverse_append, ← h.runs, List.reverse_reverse, List.append_nil] at hwalk
  have hcount := h.count
  have hle := h.length_le
  rw [h.runs, List.length_append] at hcount hle
  rcases hwalk with ⟨P', hP', hlen', hrun⟩ | ⟨B, A, rfl, hrun⟩
  · simp only [Common.addSorted, hrun]
    refine ⟨P', rfl, h.zeros, hP', ?_, h.length, ?_⟩
    · simp only [List.length_append]
      omega
    · simp only [List.length_append]
      omega
  · have hothers : ∀ A' : List CRun, A'.Sublist A →
        ∀ r ∈ B ++ c.newRun ptszJobName :: A', r.m_ft ≠ 0 := by
      intro A' hsub r hr
      rcases List.mem_append.mp hr with hr | hr
      · exact h.others r (List.mem_append_left A hr)
      · rcases List.mem_cons.mp hr with rfl | hr
        · exact hc
        · exact h.others r (List.mem_append_right B (hsub.subset hr))
    rw [List.length_append] at hcount hle
    simp only [Common.addSorted, hrun]
    split_ifs with hfull hlast
    · exact ⟨B ++ A, h⟩
    · have hpos := List.length_pos_of_ne_nil hlast
      refine ⟨B ++ c.newRun ptszJobName :: A.dropLast, List.append_assoc _ _ _, h.zeros,
        hothers _ (List.dropLast_sublist A), ?_, h.length, ?_⟩
      · simp only [List.length_append, List.length_cons, List.length_dropLast]
        omega
      · simp only [List.length_append, List.length_cons, List.length_dropLast]
        omega
    · refine ⟨B ++ c.newRun ptszJobName :: A, List.append_assoc _ _ _, h.zeros,
        hothers _ (List.Sublist.refl A), ?_, h.length, ?_⟩
      · simp only [List.length_append, List.length_cons]
        omega
      · simp only [List.length_append, List.length_cons]
        omega

theorem zerosFirst_addAll (cs : List RunCall) : ∃ Z P,
    ZerosFirst N (zeroCalls cs).length (addAll lstrcmpi ptszJobName N cs) Z P := by
  induction cs using List.reverseRecOn with
  | nil =>
    exact ⟨[], [], rfl, fun r hr => absurd hr List.not_mem_nil,
      fun r hr => absurd hr List.not_mem_nil, rfl, (Nat.zero_min N).symm, Nat.zero_le N⟩
  | append_singleton cs c ih =>
    obtain ⟨Z, P, h⟩ := ih
    rw [addAll_append]
    by_cases hc : c.ftRun = 0
    · rw [zeroCalls_append_zero hc]
      exact h.addSorted_zero hc
    · rw [zeroCalls_append hc]
      obtain ⟨P', h'⟩ := h.addSorted hc
      exact ⟨Z, P', h'⟩

/-- In a list for one run a run with the time zero stays as it is. -/
theorem addAll_one (hc : c.ftRun = 0) (cs : List RunCall) :
    addAll lstrcmpi ptszJobName 1 (c :: cs) = { runs := [c.newRun ptszJobName], count := 1 } := by
  have hstep : ∀ c', (Common.addSorted lstrcmpi ptszJobName 1
      { runs := [c.newRun ptszJobName], count := 1 } c').2 =
        { runs := [c.newRun ptszJobName], count := 1 } := by
    intro c'
    have hwalk : walkBack lstrcmpi ptszJobName c' [c.newRun ptszJobName] [] =
        .inr ([c.newRun ptszJobName], []) := if_pos hc
    simp only [Common.addSorted, List.reverse_singleton, hwalk, le_refl, if_true]
  have hfold : ∀ cs : List RunCall, cs.foldl
      (fun l c => (Common.addSorted lstrcmpi ptszJobName 1 l c).2)
        { runs := [c.newRun ptszJobName], count := 1 } =
          { runs := [c.newRun ptszJobName], count := 1 } := by
    intro cs
    induction cs with
    | nil => rfl
    | cons c' cs ih => rw [List.foldl_cons, hstep, ih]
  exact hfold cs

/-! ### The merge -/

/-- The list has the earliest distinct run times in ascending order, `pCount` is its length, each
run has what the calls for its time ask for, and all that is the same for every order of the calls. -/
structure MergesRuns (lstrcmpi : String → String → ℤ) (ptszJobName : Option String) (N : ℕ)
    (cs : List RunCall) : Prop where
  ascending : ((addAll lstrcmpi ptszJobName N cs).runs.map CRun.m_ft).Pairwise (· < ·)
  smallest : ∀ t, t ∈ (addAll lstrcmpi ptszJobName N cs).runs.map CRun.m_ft ↔
    t ∈ (cs.map RunCall.ftRun).toFinset ∧
      ((cs.map RunCall.ftRun).toFinset.filter (· < t)).card < N
  count : (addAll lstrcmpi ptszJobName N cs).count =
    (addAll lstrcmpi ptszJobName N cs).runs.length
  merged : ∀ r ∈ (addAll lstrcmpi ptszJobName N cs).runs, MergedFrom cs r
  order : ∀ cs', cs'.Perm cs → (addAll lstrcmpi ptszJobName N cs').runs.map CRun.key =
    (addAll lstrcmpi ptszJobName N cs).runs.map CRun.key
  sameJob : ∀ cs' flags maxRunTime, cs'.Perm cs →
    (∀ c ∈ cs, c.dwJobFlags = flags ∧ c.dwMaxRunTime = maxRunTime) →
    addAll lstrcmpi ptszJobName N cs' = addAll lstrcmpi ptszJobName N cs

theorem ZeroOnce.perm (h : ZeroOnce N cs) (hperm : cs'.Perm cs) : ZeroOnce N cs' := by
  have hzero : (zeroCalls cs').Perm (zeroCalls cs) := hperm.filter _
  rcases h with hN | hlen | ⟨hN, hsame⟩
  · exact Or.inl hN
  · exact Or.inr (Or.inl (hzero.length_eq.trans_le hlen))
  · exact Or.inr (Or.inr ⟨hN, fun c hc c' hc' =>
      hsame c (hzero.mem_iff.mp hc) c' (hzero.mem_iff.mp hc')⟩)

/-- A second run with the time zero is not less than the first. -/
theorem not_ascending (hN : 2 ≤ N) (hzero : 2 ≤ (zeroCalls cs).length) :
    ¬((addAll lstrcmpi ptszJobName N cs).runs.map CRun.m_ft).Pairwise (· < ·) := by
  obtain ⟨Z, P, h⟩ := @zerosFirst_addAll lstrcmpi ptszJobName N cs
  have hlen := h.length
  rcases Z with _ | ⟨r, _ | ⟨r', Z⟩⟩
  · rw [List.length_nil] at hlen
    omega
  · rw [List.length_singleton] at hlen
    omega
  · rw [h.runs]
    intro hsorted
    simp only [List.cons_append, List.map_cons, List.pairwise_cons] at hsorted
    have hlt := hsorted.1 r'.m_ft List.mem_cons_self
    have hr := h.zeros r' (by simp)
    omega

/-- The calls merge if and only if the time zero is asked for once. -/
theorem mergesRuns_iff (lstrcmpi : String → String → ℤ) (hcmp : ∀ s, lstrcmpi s s = 0)
    (ptszJobName : Option String) (N : ℕ) (cs : List RunCall) :
    MergesRuns lstrcmpi ptszJobName N cs ↔ ZeroOnce N cs := by
  constructor
  · intro h
    by_contra hnot
    unfold ZeroOnce at hnot
    push Not at hnot
    obtain ⟨hN, hzero, hsame⟩ := hnot
    by_cases hone : N = 1
    · subst hone
      obtain ⟨c, hc, c', hc', hne⟩ := hsame rfl
      have hfirst : ∀ c ∈ zeroCalls cs,
          (addAll lstrcmpi ptszJobName 1 cs).runs.map CRun.key =
            [(c.newRun ptszJobName).key] := by
        intro c hc
        obtain ⟨hmem, ht⟩ := mem_zeroCalls.mp hc
        have hperm : (c :: cs.erase c).Perm cs := (List.perm_cons_erase hmem).symm
        rw [← h.order _ hperm, addAll_one ht]
        rfl
      have hkeys := (hfirst c hc).symm.trans (hfirst c' hc')
      simp only [List.cons.injEq, and_true, CRun.key, RunCall.newRun, Prod.mk.injEq] at hkeys
      exact hne (Prod.ext hkeys.2.1 (Prod.ext hkeys.2.2.1 hkeys.2.2.2))
    · exact not_ascending (by omega) (by omega) h.ascending
  · intro h
    have hruns := @runsOf_addAll _ ptszJobName _ _ hcmp h
    exact {
      ascending := hruns.keeps.ascending
      smallest := hruns.keeps.mem_iff
      count := hruns.count
      merged := hruns.merged
      order := fun cs' hperm => hruns.keys_eq hperm (runsOf_addAll hcmp (h.perm hperm))
      sameJob := fun cs' _ _ hperm hjob =>
        hruns.eq hperm (runsOf_addAll hcmp (h.perm hperm)) hjob }

/-- A comparison that ignores the case. -/
def compareLower (name name' : String) : ℤ := if name.toLower = name'.toLower then 0 else 1

def runCallAt (ftRun ftKillTime : ℕ) : RunCall :=
  { ftRun := ftRun
    ftDeadline := 100
    ftKillTime := ftKillTime
    dwJobFlags := 0
    dwMaxRunTime := 60
    wIdleWait := 0 }

theorem mergesRuns_twice : MergesRuns compareLower none 1 [runCallAt 5 20, runCallAt 5 10] :=
  (mergesRuns_iff compareLower (fun _ => if_pos rfl) none 1 _).mpr (Or.inr (Or.inl (by decide)))

/-- Two calls for the time zero leave two runs. -/
theorem not_mergesRuns : ¬∀ (lstrcmpi : String → String → ℤ) (ptszJobName : Option String) (N : ℕ)
    (cs : List RunCall), (∀ s, lstrcmpi s s = 0) → MergesRuns lstrcmpi ptszJobName N cs := by
  intro h
  have hmerges := h compareLower none 2 [runCallAt 0 20, runCallAt 0 10] fun _ => if_pos rfl
  exact absurd hmerges.ascending (by decide)

end NtAdmin.Sched.Common
