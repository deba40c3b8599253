import Mathlib.Data.BitVec
import Mathlib.Tactic.Push
import NtAdmin.Sched.Job.MonthlyDate

/-! The search for the first run of a monthly trigger by date ends if one of its dates exists. -/
namespace NtAdmin.Sched.Job
open Common

variable {days months : ℕ → Bool} {t T m y count : ℕ} {w : Bool}

/-! ### Months in a row -/

/-- The months are numbered from January of the year 0 on. -/
def monthOf (t : ℕ) : ℕ := t % 12 + 1

def yearOf (t : ℕ) : ℕ := t / 12 % 2 ^ 16

/-- The month `t`, or the one after December for the next January. -/
structure AtMonth (t m y : ℕ) : Prop where
  pos : 1 ≤ m
  month : (if 12 < m then 1 else m) = monthOf t
  year : (if 12 < m then nextYear y else y) = yearOf t

theorem atMonth_of (t : ℕ) : AtMonth t (monthOf t) (yearOf t) := by
  have hle : ¬12 < monthOf t := by
    unfold monthOf
    omega
  exact { pos := Nat.succ_pos _, month := if_neg hle, year := if_neg hle }

theorem atMonth_succ (t : ℕ) : AtMonth (t + 1) (monthOf t + 1) (yearOf t) := by
  unfold monthOf
  constructor
  · omega
  · unfold monthOf
    split_ifs <;> omega
  · unfold nextYear yearOf
    split_ifs <;> omega

theorem AtMonth.eq_of_le (h : AtMonth t m y) (hm : m ≤ 12) : m = monthOf t ∧ y = yearOf t := by
  have hmonth := h.month
  have hyear := h.year
  rw [if_neg (by omega)] at hmonth hyear
  exact ⟨hmonth, hyear⟩

/-- A run month that is not the one to be skipped. -/
def IsRunMonth (months : ℕ → Bool) (t : ℕ) : Prop := months (monthOf t - 1) = true

instance : DecidablePred (IsRunMonth months) := fun _ => inferInstanceAs (Decidable (_ = true))

theorem findRunMonth_succ (h : AtMonth t m y) (first : Bool) :
    findRunMonth months (count + 1) first m y w =
      if IsRunMonth months t then
        if w ∧ first then findRunMonth months count false (monthOf t + 1) (yearOf t) false
        else (monthOf t, yearOf t, w)
      else findRunMonth months count false (monthOf t + 1) (yearOf t) w := by
  rw [findRunMonth]
  simp only [h.month, h.year]
  rfl

/-- Without skipping, the next run month is found, if there is one near enough. -/
theorem findRunMonth_spec (h : AtMonth t m y) (first : Bool)
    (hskip : IsRunMonth months t → ¬(w ∧ first)) :
    (∃ t', t ≤ t' ∧ t' < t + count ∧ IsRunMonth months t' ∧
      (∀ u, t ≤ u → IsRunMonth months u → t' ≤ u) ∧
      findRunMonth months count first m y w = (monthOf t', yearOf t', w)) ∨
    (∀ u, t ≤ u → u < t + count → ¬IsRunMonth months u) ∧
      ∃ m' y', AtMonth (t + count) m' y' ∧ findRunMonth months count first m y w = (m', y', w) := by
  induction count generalizing t m y first with
  | zero => exact Or.inr ⟨fun u hu hlt => by omega, m, y, h, rfl⟩
  | succ count ih =>
    rw [findRunMonth_succ h]
    by_cases hrun : IsRunMonth months t
    · rw [if_pos hrun, if_neg (hskip hrun)]
      exact Or.inl ⟨t, le_rfl, by omega, hrun, fun u hu _ => hu, rfl⟩
    · rw [if_neg hrun]
      rcases ih (atMonth_succ t) false (fun _ => by simp) with
        ⟨t', hle, hlt, hrun', hleast, heq⟩ | ⟨hnone, m', y', hat, heq⟩
      · refine Or.inl ⟨t', by omega, by omega, hrun', fun u hu hu' => ?_, heq⟩
        refine hleast u ?_ hu'
        rcases Nat.eq_or_lt_of_le hu with rfl | hlt'
        · exact absurd hu' hrun
        · exact hlt'
      · refine Or.inr ⟨fun u hu hu' hrun' => ?_, m', y', ?_, heq⟩
        · rcases Nat.eq_or_lt_of_le hu with rfl | hlt'
          · exact hrun hrun'
          · exact hnone u hlt' (by omega) hrun'
        · rwa [Nat.add_right_comm] at hat

/-- The search comes to some month. -/
theorem findRunMonth_at (h : AtMonth t m y) (first : Bool) : ∃ t' m' y' w',
    AtMonth t' m' y' ∧ findRunMonth months count first m y w = (m', y', w') := by
  induction count generalizing t m y first w with
  | zero => exact ⟨t, m, y, w, h, rfl⟩
  | succ count ih =>
    rw [findRunMonth_succ h]
    split_ifs
    · exact ih (atMonth_succ t) false
    · exact ⟨t, _, _, w, atMonth_of t, rfl⟩
    · exact ih (atMonth_succ t) false

/-! ### Days -/

/-- From the first of a month the search stops at each day that is asked for, or behind the end of a
shorter month. -/
theorem findRunDay_le {wLastDOM d day : ℕ} (hcount : d + count = wLastDOM + 1) (hd : 1 ≤ d)
    (hday : days (day - 1) = true) (hle : d ≤ day) :
    ∃ d', findRunDay days wLastDOM count d w = (d', w) ∧ d' ≤ day := by
  induction count generalizing d with
  | zero => exact ⟨d, rfl, hle⟩
  | succ count ih =>
    have hwrap : ¬wLastDOM < d := by omega
    simp only [findRunDay, if_neg hwrap]
    split_ifs with hrun
    · exact ⟨d, rfl, hle⟩
    · have hne : d ≠ day := fun heq => hrun (heq ▸ hday)
      exact ih (by omega) (by omega) (by omega)

/-! ### Rounds -/

def Ends (days months : ℕ → Bool) (s : DateSearch) : Prop :=
  ∃ fuel r, dateSearch days months fuel s = some r

variable {s : DateSearch}

theorem ends_of_exit (h : (searchRound days months s).2 = false) : Ends days months s := by
  refine ⟨1, (searchRound days months s).1, ?_⟩
  simp only [dateSearch, h, Bool.false_eq_true, if_false]

theorem ends_of_next (h : (searchRound days months s).2 = true)
    (hnext : Ends days months (searchRound days months s).1) : Ends days months s := by
  obtain ⟨fuel, r, hr⟩ := hnext
  refine ⟨fuel + 1, r, ?_⟩
  simp only [dateSearch, h, if_true, hr]

/-- A round starts with the first of the month `t`. -/
structure Ready (t : ℕ) (s : DateSearch) : Prop where
  day : s.wCurDay = 1
  month : s.wCurMonth = monthOf t
  year : s.wCurYear = yearOf t

theorem Ready.atMonth (h : Ready t s) : AtMonth t s.wCurMonth s.wCurYear := by
  rw [h.month, h.year]
  exact atMonth_of t

theorem monthDays_isSome (t : ℕ) : ∃ n, monthDays (monthOf t) (yearOf t) = some n := by
  have hm : ¬(monthOf t < 1 ∨ 12 < monthOf t) := by
    unfold monthOf
    omega
  unfold monthDays
  rw [if_neg hm]
  split_ifs
  · exact ⟨_, rfl⟩
  · exact ⟨_, rfl⟩

/-- The month in which a round has arrived, and where the search goes on from there. -/
theorem searchRound_spec {wLastDOM d w' : _} {t' m' y' : ℕ} {w'' : Bool}
    (hlast : (monthDays s.wCurMonth s.wCurYear).getD s.wLastDOM = wLastDOM)
    (hday : findRunDay days wLastDOM wLastDOM s.wCurDay s.fWrapped = (d, w'))
    (hmonth : findRunMonth months 12 true s.wCurMonth s.wCurYear w' = (m', y', w''))
    (hat : AtMonth t' m' y') :
    (searchRound days months s).2 = decide ((monthDays m' y').getD wLastDOM < d) ∧
      ((searchRound days months s).2 = true →
        (searchRound days months s).1.fWrapped = w'' ∧
        ∃ u, (u = t' + 1 ∨ u = t' ∧ 12 < m') ∧ Ready u (searchRound days months s).1) := by
  have hround : searchRound days months s =
      if (monthDays m' y').getD wLastDOM < d then
        ({ wCurDay := 1
           wCurMonth := if 12 < m' + 1 then 1 else m' + 1
           wCurYear := if 12 < m' + 1 then nextYear y' else y'
           wLastDOM := (monthDays m' y').getD wLastDOM
           fWrapped := w'' }, true)
      else
        ({ wCurDay := d
           wCurMonth := m'
           wCurYear := y'
           wLastDOM := (monthDays m' y').getD wLastDOM
           fWrapped := w'' }, false) := by
    simp only [searchRound, hlast, hday, hmonth]
  rw [hround]
  by_cases hover : (monthDays m' y').getD wLastDOM < d
  · rw [if_pos hover]
    refine ⟨(decide_eq_true hover).symm, fun _ => ⟨rfl, ?_⟩⟩
    by_cases hm : m' ≤ 12
    · obtain ⟨rfl, rfl⟩ := hat.eq_of_le hm
      have hsucc := atMonth_succ t'
      exact ⟨t' + 1, Or.inl rfl, { day := rfl, month := hsucc.month, year := hsucc.year }⟩
    · have hmonth := hat.month
      have hyear := hat.year
      rw [if_pos (by omega)] at hmonth hyear
      refine ⟨t', Or.inr ⟨rfl, by omega⟩, { day := rfl, month := ?_, year := ?_ }⟩
      · exact (if_pos (by omega)).trans hmonth
      · exact (if_pos (by omega)).trans hyear
  · rw [if_neg hover]
    exact ⟨(decide_eq_false hover).symm, fun h => absurd h Bool.false_ne_true⟩

/-- A run month that has the day `day`. -/
structure HasDay (months : ℕ → Bool) (day T : ℕ) : Prop where
  run : IsRunMonth months T
  long : ∀ n, day ≤ (monthDays (monthOf T) (yearOf T)).getD n

/-- One that is repeated each time that the year counter comes to 4. -/
theorem hasDay_after {day : ℕ} (hlow : 1 ≤ m) (hhigh : m ≤ 12) (hrun : months (m - 1) = true)
    (hday : day ≤ longest m) (t : ℕ) : ∃ T, t ≤ T ∧ HasDay months day T := by
  have hmonth : monthOf (12 * (65536 * (t + 1) + 4) + (m - 1)) = m := by
    unfold monthOf
    omega
  have hyear : yearOf (12 * (65536 * (t + 1) + 4) + (m - 1)) = 4 := by
    unfold yearOf
    omega
  refine ⟨12 * (65536 * (t + 1) + 4) + (m - 1), by omega, ?_, fun n => ?_⟩
  · rw [IsRunMonth, hmonth]
    exact hrun
  · rw [hmonth, hyear, monthDays_four hlow hhigh]
    exact hday

variable {day : ℕ}

/-- A run month comes back each year. -/
theorem exists_isRunMonth (hrun : IsRunMonth months T) (t : ℕ) :
    ∃ u, t ≤ u ∧ u < t + 12 ∧ IsRunMonth months u := by
  refine ⟨t + (T + 12 - t % 12) % 12, by omega, by omega, ?_⟩
  have hmonth : monthOf (t + (T + 12 - t % 12) % 12) = monthOf T := by
    unfold monthOf
    omega
  rwa [IsRunMonth, hmonth]

theorem findRunDay_ready (hready : Ready t s) (hday : days (day - 1) = true) (hpos : 1 ≤ day) :
    ∃ wLastDOM d, (monthDays s.wCurMonth s.wCurYear).getD s.wLastDOM = wLastDOM ∧
      findRunDay days wLastDOM wLastDOM s.wCurDay s.fWrapped = (d, s.fWrapped) ∧ d ≤ day := by
  obtain ⟨n, hn⟩ := monthDays_isSome t
  obtain ⟨d, hrun, hd⟩ :=
    findRunDay_le (w := s.fWrapped) (show 1 + n = n + 1 by omega) le_rfl hday hpos
  refine ⟨n, d, ?_, ?_, hd⟩
  · rw [hready.month, hready.year, hn, Option.getD_some]
  · rw [hready.day, hrun]

/-- A round that skips no month comes no further than to a month that has the day. -/
theorem round_to (hready : Ready t s) (hday : days (day - 1) = true) (hpos : 1 ≤ day)
    (hT : HasDay months day T) (hle : t ≤ T)
    (hskip : IsRunMonth months t → s.fWrapped = false) :
    (searchRound days months s).2 = false ∨ (searchRound days months s).2 = true ∧
      (searchRound days months s).1.fWrapped = s.fWrapped ∧
      ∃ u, t < u ∧ u ≤ T ∧ Ready u (searchRound days months s).1 := by
  obtain ⟨wLastDOM, d, hlast, hfindDay, hd⟩ := findRunDay_ready hready hday hpos
  have hskip' : IsRunMonth months t → ¬(s.fWrapped = true ∧ true = true) := by
    intro hrun
    rw [hskip hrun]
    simp
  rcases @findRunMonth_spec _ _ _ _ 12 _ hready.atMonth true hskip' with
    ⟨t', htt', -, -, hleast, hfind⟩ | ⟨hnone, -⟩
  · obtain ⟨hexit, hnext⟩ := searchRound_spec hlast hfindDay hfind (atMonth_of t')
    by_cases hover : (searchRound days months s).2 = true
    · obtain ⟨hwrapped, u, hu, hready'⟩ := hnext hover
      refine Or.inr ⟨hover, hwrapped, u, ?_⟩
      have hle' : t' ≤ T := hleast T hle hT.run
      have hne : t' ≠ T := by
        rintro rfl
        rw [hexit, decide_eq_true_iff] at hover
        exact absurd (hT.long wLastDOM) (by omega)
      have hmonth : ¬12 < monthOf t' := by
        unfold monthOf
        omega
      exact ⟨by omega, by omega, hready'⟩
    · exact Or.inl (Bool.not_eq_true _ ▸ hover)
  · obtain ⟨u, hu, hlt, hrun⟩ := exists_isRunMonth hT.run t
    exact absurd hrun (hnone u hu hlt)

/-- Each round that skips nothing comes nearer to a month that has the day. -/
theorem ends_of_not_wrapped (hday : days (day - 1) = true) (hpos : 1 ≤ day)
    (hT : HasDay months day T) (n : ℕ) (hready : Ready t s) (hle : t ≤ T) (hn : T - t < n)
    (hwrapped : s.fWrapped = false) : Ends days months s := by
  induction n generalizing t s with
  | zero => omega
  | succ n ih =>
    rcases round_to hready hday hpos hT hle fun _ => hwrapped with
      hexit | ⟨hover, hsame, u, htu, huT, hready'⟩
    · exact ends_of_exit hexit
    · exact ends_of_next hover (ih hready' huT (by omega) (hsame.trans hwrapped))

section ends
variable (hday : days (day - 1) = true) (hpos : 1 ≤ day)
  (hafter : ∀ t, ∃ T, t ≤ T ∧ HasDay months day T)
include hday hpos hafter

theorem ends_of_ready (hready : Ready t s) (hwrapped : s.fWrapped = false) :
    Ends days months s := by
  obtain ⟨T, hle, hT⟩ := hafter t
  exact ends_of_not_wrapped hday hpos hT (T - t + 1) hready hle (Nat.lt_succ_self _) hwrapped

/-- The one month that is skipped. -/
theorem ends_of_skip (hready : Ready t s) (hwrapped : s.fWrapped = true)
    (hrun : IsRunMonth months t) : Ends days months s := by
  obtain ⟨wLastDOM, d, hlast, hfindDay, -⟩ := findRunDay_ready hready hday hpos
  have hskip : findRunMonth months 12 true s.wCurMonth s.wCurYear s.fWrapped =
      findRunMonth months 11 false (monthOf t + 1) (yearOf t) false := by
    rw [findRunMonth_succ hready.atMonth, if_pos hrun, if_pos ⟨hwrapped, rfl⟩]
  have hfound : ∃ t' m' y', AtMonth t' m' y' ∧
      findRunMonth months 12 true s.wCurMonth s.wCurYear s.fWrapped = (m', y', false) := by
    rw [hskip]
    rcases @findRunMonth_spec months _ _ _ 11 false (atMonth_succ t) false
      (fun _ => by simp) with ⟨t', -, -, -, -, hfind⟩ | ⟨-, m', y', hat, hfind⟩
    · exact ⟨t', _, _, atMonth_of t', hfind⟩
    · exact ⟨_, m', y', hat, hfind⟩
  obtain ⟨t', m', y', hat, hfind⟩ := hfound
  obtain ⟨-, hnext⟩ := searchRound_spec hlast hfindDay hfind hat
  by_cases hover : (searchRound days months s).2 = true
  · obtain ⟨hsame, u, -, hready'⟩ := hnext hover
    exact ends_of_next hover (ends_of_ready hday hpos hafter hready' hsame)
  · exact ends_of_exit (Bool.not_eq_true _ ▸ hover)

theorem ends_of_ready_wrapped (n : ℕ) (hT : HasDay months day T) (hready : Ready t s)
    (hle : t ≤ T) (hn : T - t < n) : Ends days months s := by
  induction n generalizing t s with
  | zero => omega
  | succ n ih =>
    by_cases hskip : IsRunMonth months t ∧ s.fWrapped = true
    · exact ends_of_skip hday hpos hafter hready hskip.2 hskip.1
    · have hnot : IsRunMonth months t → s.fWrapped = false := fun hrun =>
        Bool.not_eq_true _ ▸ fun h => hskip ⟨hrun, h⟩
      rcases round_to hready hday hpos hT hle hnot with hexit | ⟨hover, -, u, htu, huT, hready'⟩
      · exact ends_of_exit hexit
      · exact ends_of_next hover (ih hready' huT (by omega))

end ends

/-- The search ends from every month if a date that is asked for is one in some year. -/
theorem dateSearch_ends {wBeginMonth : ℕ} (hlow : 1 ≤ wBeginMonth) (hhigh : wBeginMonth ≤ 12)
    (wBeginDay wBeginYear garbage : ℕ) (hyear : wBeginYear < 2 ^ 16)
    (hdate : ∃ m d y, months (m - 1) = true ∧ days (d - 1) = true ∧ isValidDate m d y = true) :
    Ends days months (firstSearch wBeginMonth wBeginDay wBeginYear garbage) := by
  obtain ⟨m, day, y, hmonth, hday, hvalid⟩ := hdate
  obtain ⟨hm1, hm12, hpos, hlong⟩ := isValidDate_longest hvalid
  have hafter := hasDay_after hm1 hm12 hmonth hlong
  have hat : AtMonth (12 * wBeginYear + (wBeginMonth - 1)) wBeginMonth wBeginYear := by
    constructor
    · exact hlow
    · rw [if_neg (by omega), monthOf]
      omega
    · rw [if_neg (by omega), yearOf]
      omega
  let s := firstSearch wBeginMonth wBeginDay wBeginYear garbage
  let wLastDOM := (monthDays s.wCurMonth s.wCurYear).getD s.wLastDOM
  obtain ⟨t', m', y', w'', hat', hfind⟩ := @findRunMonth_at months _ _ _ 12
    (findRunDay days wLastDOM wLastDOM s.wCurDay s.fWrapped).2 hat true
  obtain ⟨-, hnext⟩ := searchRound_spec (s := s) rfl rfl hfind hat'
  by_cases hover : (searchRound days months s).2 = true
  · obtain ⟨-, u, -, hready⟩ := hnext hover
    obtain ⟨T, hle, hT⟩ := hafter u
    exact ends_of_next hover
      (ends_of_ready_wrapped hday hpos hafter (T - u + 1) hT hready hle (Nat.lt_succ_self _))
  · exact ends_of_exit (Bool.not_eq_true _ ▸ hover)

end NtAdmin.Sched.Job
