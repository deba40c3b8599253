import NtAdmin.Wmi.PageMgr.Rollback

/-! Compaction of a page file: `CompactPages` of pagemgr.cpp. -/
namespace NtAdmin.Wmi.PageMgr

open NtAdmin.Lib

variable {ps : ℕ}

/-- One entry of the map, against the candidate found so far: its logical and its physical id. -/
def compactScan (cur e : ℕ × ℕ) : ℕ × ℕ :=
  if e.1 = invalidPage then cur
  else if e.1 = reservedPage then cur
  else if cur.2 < merePageId e.1 then (e.2, merePageId e.1)
  else cur

/-- The mapped entry with the highest physical page. -/
def compactCandidate (pageMap : List ℕ) : ℕ × ℕ := pageMap.zipIdx.foldl compactScan (0, 0)

namespace CPageFile

/-- The page that one round of `CompactPages` moves, unless the file is compact. -/
def compactRead : Op (CPageFile ps) (Option (ℕ × Page ps)) := do
  let s ← getObj
  let candidate := compactCandidate s.pageMapB.data
  let firstFree := (lowestFree s.physFreeListB.data).1
  if firstFree = 0xFFFFFFFF then return none
  if candidate.2 < firstFree then return none
  newMemory
  let page ← getPage candidate.1
  return some (candidate.1, page)

def compactPages : ℕ → Op (CPageFile ps) Unit
  | 0 => pure ()
  | dwNumPages + 1 => do
    match ← compactRead with
    | none => pure ()
    | some (id, page) =>
      putPage id page
      compactPages dwNumPages

end CPageFile

section candidate
variable {l : List ℕ} {e : ℕ}

/-- The candidate is a mapped entry of the scanned part, or the scan is where it began; no physical
page is higher. -/
private theorem foldl_candidate (l : List ℕ) (k : ℕ) (cur : ℕ × ℕ) :
    let r := (l.zipIdx k).foldl compactScan cur
    (r = cur ∨ k ≤ r.1 ∧ ∃ e, l[r.1 - k]? = some e ∧ merePageId e = r.2) ∧ cur.2 ≤ r.2 ∧
      ∀ e ∈ l, e ≠ invalidPage → e ≠ reservedPage → merePageId e ≤ r.2 := by
  induction l generalizing k cur with
  | nil => simp
  | cons x l ih =>
    have hnext : (compactScan cur (x, k) = cur ∨ compactScan cur (x, k) = (k, merePageId x)) ∧
        cur.2 ≤ (compactScan cur (x, k)).2 ∧ (x ≠ invalidPage → x ≠ reservedPage →
          merePageId x ≤ (compactScan cur (x, k)).2) := by
      unfold compactScan
      split_ifs with h₁ h₂ h₃
      · exact ⟨Or.inl rfl, Nat.le_refl _, fun h => absurd h₁ h⟩
      · exact ⟨Or.inl rfl, Nat.le_refl _, fun _ h => absurd h₂ h⟩
      · exact ⟨Or.inr rfl, Nat.le_of_lt h₃, fun _ _ => Nat.le_refl _⟩
      · exact ⟨Or.inl rfl, Nat.le_refl _, fun _ _ => Nat.not_lt.mp h₃⟩
    obtain ⟨hstart, hle, hx⟩ := hnext
    obtain ⟨hmem, hle', hall⟩ := ih (k + 1) (compactScan cur (x, k))
    simp only [List.zipIdx_cons, List.foldl_cons]
    generalize (l.zipIdx (k + 1)).foldl compactScan (compactScan cur (x, k)) = r at *
    refine ⟨?_, Nat.le_trans hle hle', fun e he hinv hres => ?_⟩
    · rcases hmem with rfl | ⟨hk, e, he, hp⟩
      · rcases hstart with hs | hs
        · exact Or.inl hs
        · exact Or.inr ⟨by rw [hs], x, by simp [hs], by rw [hs]⟩
      · refine Or.inr ⟨by omega, e, ?_, hp⟩
        rw [List.getElem?_cons, if_neg (by omega), Nat.sub_sub]
        exact he
    · rcases List.mem_cons.mp he with rfl | he
      · exact Nat.le_trans (hx hinv hres) hle'
      · exact hall e he hinv hres

/-- Where the candidate is mapped, its physical page is the one that was found. -/
theorem compactCandidate_physId (h : l[(compactCandidate l).1]? = some e) (hinv : e ≠ invalidPage)
    (hres : e ≠ reservedPage) : merePageId e = (compactCandidate l).2 := by
  obtain ⟨hmem, -, hall⟩ := foldl_candidate l 0 (0, 0)
  change (compactCandidate l = (0, 0) ∨ 0 ≤ (compactCandidate l).1 ∧
    ∃ e, l[(compactCandidate l).1 - 0]? = some e ∧ merePageId e = (compactCandidate l).2) at hmem
  rcases hmem with h₀ | ⟨-, e', he', hp⟩
  · have hle : merePageId e ≤ (compactCandidate l).2 := hall e (List.mem_of_getElem? h) hinv hres
    rw [h₀] at hle ⊢
    exact Nat.le_zero.mp hle
  · rw [Nat.sub_zero, h] at he'
    rw [← hp, Option.some.inj he']

end candidate

theorem Generation.Sound.apart {g : Generation} {extra : List ℕ} (h : g.Sound extra) :
    g.Apart extra where
  held p := by
    have hcount := h.held.count_eq p
    simp only [List.count_append] at hcount
    omega
  pages := h.pages

namespace CPageFile
variable {w w₁ w' : World (CPageFile ps)}
open CPageCache (Step Kept view)

/-- The maps partition the physical pages, and the cache is in order. -/
structure Orderly (w : World (CPageFile ps)) : Prop where
  maps : w.obj.maps.Partitioned
  cache : CPageCache.Inv (cacheWorld w)

/-- Every mapped physical page is in the cache or in the data file. -/
def AllReadable (w : World (CPageFile ps)) : Prop :=
  ∀ p ∈ mappedIds w.obj.pageMapB.data, view (cacheWorld w) p ≠ none

/-- Only the cache has moved, and no page has changed. -/
structure Reads (w w' : World (CPageFile ps)) : Prop where
  maps : w'.obj.maps = w.obj.maps
  cache : Step (cacheWorld w) (cacheWorld w')

/-- `page` was read for the entry `e` of the map, and a physical page is free below it. -/
structure Candidate (w : World (CPageFile ps)) (id e : ℕ) (page : Page ps) : Prop where
  entry : w.obj.maps.b.pageMap[id]? = some e
  not_invalid : e ≠ invalidPage
  not_reserved : e ≠ reservedPage
  bytes : view (cacheWorld w) (merePageId e) = some page
  cached : w.obj.cache.find (merePageId e) ≠ none
  free : w.obj.maps.b.physFree ≠ []
  le : (lowestFree w.obj.maps.b.physFree).1 ≤ merePageId e

namespace Orderly

theorem apart (h : Orderly w) : w.obj.maps.b.Apart w.obj.maps.deferred := h.maps.b.apart

theorem inRange (h : Orderly w) (hps : ps ≤ wmirepPageSize) {p : ℕ}
    (hp : p ∈ mappedIds w.obj.maps.b.pageMap) : InRange ps p :=
  inRange_of_lt hps (h.apart.mem_lt (Or.inl hp)) h.apart.pages

theorem reads (h : Orderly w) (hr : Reads w w') : Orderly w' := ⟨hr.maps ▸ h.maps, hr.cache.inv⟩

end Orderly

theorem mem_mappedIds_of_getElem? {l : List ℕ} {id e : ℕ} (h : l[id]? = some e)
    (hinv : e ≠ invalidPage) (hres : e ≠ reservedPage) : merePageId e ∈ mappedIds l :=
  mem_mappedIds.mpr ⟨e, List.mem_of_getElem? h, hinv, hres, rfl⟩

theorem getPage_cached (hps : ps ≤ wmirepPageSize) (hw : Orderly w) (id : ℕ) :
    (getPage id).wp
      (fun page w' => Reads w w' ∧ ∃ e, w.obj.maps.b.pageMap[id]? = some e ∧ e ≠ invalidPage ∧
        e ≠ reservedPage ∧ view (cacheWorld w) (merePageId e) = some page ∧
        w'.obj.cache.find (merePageId e) ≠ none)
      (fun _ w' => Reads w w') w := by
  have hrefl : Reads w w := ⟨rfl, .refl hw.cache⟩
  simp only [getPage, Prog.wp_bind, wp_getObj]
  rcases hid : w.obj.pageMapB.data[id]? with _ | e
  · exact hrefl
  simp only [Prog.wp_bind, Prog.wp_ite, Prog.wp_throw]
  refine ⟨fun _ => hrefl, fun hno => ?_⟩
  have hinv := mt Or.inl hno
  have hres := mt Or.inr hno
  have hr := hw.inRange hps (mem_mappedIds_of_getElem? hid hinv hres)
  rw [wp_onCache]
  refine Prog.wp_mono (Prog.wp_and (CPageCache.read_spec hw.cache hr)
    (CPageCache.read_cached hw.cache hr)) (fun page c h => ?_) (fun _ c h => ⟨rfl, h.1.1⟩)
  exact ⟨⟨rfl, h.1.1⟩, e, hid, hinv, hres, h.1.2, h.2⟩

theorem compactRead_spec (hps : ps ≤ wmirepPageSize) (hw : Orderly w) :
    compactRead.wp
      (fun r w' => Reads w w' ∧ ∀ id page, r = some (id, page) → ∃ e, Candidate w' id e page)
      (fun _ w' => Reads w w') w := by
  have hrefl : Reads w w := ⟨rfl, .refl hw.cache⟩
  simp only [compactRead, Prog.wp_bind, wp_getObj, Prog.wp_ite, Prog.wp_pure]
  refine ⟨fun _ => ⟨hrefl, fun _ _ hr => by cases hr⟩,
    fun hfree => ⟨fun _ => ⟨hrefl, fun _ _ hr => by cases hr⟩, fun hle => ?_⟩⟩
  refine wp_newMemory (fun a ha => ?_) (fun a _ ha => ⟨rfl, .allocs hw.cache ha⟩)
  have h₀ : Reads w ⟨w.obj, { w.os with allocs := a }⟩ := ⟨rfl, .allocs hw.cache ha⟩
  have hw₀ := hw.reads h₀
  simp only [Prog.wp_bind]
  refine Prog.wp_mono (getPage_cached hps hw₀ _) (fun page w' h => ?_)
    (fun _ w' h => ⟨h.maps, h₀.cache.trans h.cache⟩)
  obtain ⟨h, e, hid, hinv, hres, hview, hcached⟩ := h
  refine ⟨⟨h.maps, h₀.cache.trans h.cache⟩, fun id page' heq => ⟨e, ?_⟩⟩
  obtain ⟨rfl, rfl⟩ := Prod.mk.injEq .. ▸ Option.some.inj heq
  have hphys : merePageId e = (compactCandidate w.obj.pageMapB.data).2 :=
    compactCandidate_physId hid hinv hres
  have hr := hw₀.inRange hps (mem_mappedIds_of_getElem? hid hinv hres)
  have hmaps : w'.obj.maps = w.obj.maps := h.maps
  refine ⟨by rw [hmaps]; exact hid, hinv, hres, h.cache.view _ _ hr hview, hcached, ?_, ?_⟩
  · rw [hmaps]
    intro hnil
    exact hfree (by rw [show w.obj.physFreeListB.data = [] from hnil]; rfl)
  · rw [hmaps, hphys]
    exact Nat.not_lt.mp hle

/-- An entry of the map that gives the page it gave before, whichever page holds it. -/
inductive SameEntry (v v' : ℕ → Option (Page ps)) (e e' : ℕ) : Prop
  | unmapped : entryIds e = [] → entryIds e' = [] → SameEntry v v' e e'
  | page {p p' : ℕ} : entryIds e = [p] → entryIds e' = [p'] →
      (∀ q, v p = some q → v' p' = some q) → SameEntry v v' e e'

/-- What a round of a compaction keeps, if it loses no page. -/
structure Relocated (w w' : World (CPageFile ps)) : Prop where
  orderly : Orderly w'
  lower : ∀ id e : ℕ, w.obj.maps.b.pageMap[id]? = some e → ∃ e' : ℕ,
    w'.obj.maps.b.pageMap[id]? = some e' ∧ (e' = e ∨ merePageId e' < merePageId e)
  content : AllReadable w → AllReadable w' ∧ ∀ id, content w' id = content w id

theorem content_of_entries (hps : ps ≤ wmirepPageSize) (hw : Orderly w) (hw' : Orderly w')
    (h : ∀ id : ℕ, Option.Rel (SameEntry (view (cacheWorld w)) (view (cacheWorld w')))
      w.obj.maps.b.pageMap[id]? w'.obj.maps.b.pageMap[id]?)
    (hread : AllReadable w) : AllReadable w' ∧ ∀ id, content w' id = content w id := by
  have hsome : ∀ {id e p : ℕ}, w.obj.maps.b.pageMap[id]? = some e → entryIds e = [p] →
      ∃ q, view (cacheWorld w) p = some q := by
    intro id e p hid hp
    have hmem : p ∈ mappedIds w.obj.maps.b.pageMap :=
      List.mem_flatMap.mpr ⟨e, List.mem_of_getElem? hid, by simp [hp]⟩
    exact Option.ne_none_iff_exists'.mp (hread p hmem)
  constructor
  · intro p' hp'
    obtain ⟨e', he', hmem⟩ := List.mem_flatMap.mp hp'
    obtain ⟨id, hid'⟩ := List.mem_iff_getElem?.mp he'
    have hrel := h id
    rw [show w'.obj.maps.b.pageMap[id]? = some e' from hid'] at hrel
    rcases hid : w.obj.maps.b.pageMap[id]? with _ | e
    · rw [hid] at hrel
      cases hrel
    rw [hid] at hrel
    cases hrel with
    | some hsame =>
      cases hsame with
      | unmapped _ hnil =>
        rw [hnil] at hmem
        cases hmem
      | page hp hp₁ hview =>
        obtain ⟨q, hq⟩ := hsome hid hp
        rw [hp₁] at hmem
        rw [List.mem_singleton.mp hmem, hview q hq]
        exact Option.some_ne_none q
  · intro id
    rw [content_eq hps hw'.cache hw'.apart, content_eq hps hw.cache hw.apart, List.getElem?_map,
      List.getElem?_map]
    have hrel := h id
    rcases hid : w.obj.maps.b.pageMap[id]? with _ | e <;>
      rcases hid' : w'.obj.maps.b.pageMap[id]? with _ | e' <;> rw [hid, hid'] at hrel <;>
      cases hrel
    · rfl
    · rename_i hsame
      cases hsame with
      | unmapped hnil hnil' => simp only [Option.map_some, hnil, hnil', lookup]
      | page hp hp' hview =>
        obtain ⟨q, hq⟩ := hsome hid hp
        simp only [Option.map_some, hp, hp', lookup, hq, hview q hq]

namespace Relocated

theorem trans (h : Relocated w w₁) (h' : Relocated w₁ w') : Relocated w w' where
  orderly := h'.orderly
  lower id e he := by
    obtain ⟨e₁, he₁, hlt₁⟩ := h.lower id e he
    obtain ⟨e₂, he₂, hlt₂⟩ := h'.lower id e₁ he₁
    refine ⟨e₂, he₂, ?_⟩
    rcases hlt₁ with rfl | hlt₁ <;> rcases hlt₂ with rfl | hlt₂
    · exact Or.inl rfl
    · exact Or.inr hlt₂
    · exact Or.inr hlt₁
    · exact Or.inr (Nat.lt_trans hlt₂ hlt₁)
  content hread := by
    obtain ⟨hread₁, hc₁⟩ := h.content hread
    obtain ⟨hread₂, hc₂⟩ := h'.content hread₁
    exact ⟨hread₂, fun id => (hc₂ id).trans (hc₁ id)⟩

/-- The maps are the same, and each physical page that they map has its bytes. -/
theorem of_maps (hps : ps ≤ wmirepPageSize) (hw : Orderly w) (hi : CPageCache.Inv (cacheWorld w'))
    (hm : w'.obj.maps = w.obj.maps) (hview : ∀ p ∈ mappedIds w.obj.maps.b.pageMap, ∀ q,
      view (cacheWorld w) p = some q → view (cacheWorld w') p = some q) : Relocated w w' where
  orderly := ⟨hm ▸ hw.maps, hi⟩
  lower id e he := ⟨e, by rw [hm, he], Or.inl rfl⟩
  content := by
    refine content_of_entries hps hw ⟨hm ▸ hw.maps, hi⟩ fun id => ?_
    rw [hm]
    rcases hid : w.obj.maps.b.pageMap[id]? with _ | e
    · exact .none
    · refine .some ?_
      by_cases hno : e = invalidPage ∨ e = reservedPage
      · exact .unmapped (if_pos hno) (if_pos hno)
      · exact .page (if_neg hno) (if_neg hno)
          (hview _ (mem_mappedIds_of_getElem? hid (mt Or.inl hno) (mt Or.inr hno)))

theorem of_reads (hps : ps ≤ wmirepPageSize) (hw : Orderly w) (h : Reads w w') : Relocated w w' :=
  .of_maps hps hw h.cache.inv h.maps fun p hp q => h.cache.view p q (hw.inRange hps hp)

end Relocated

theorem alloc_lowest {m m' : Maps} {p : ℕ} (hfree : m.b.physFree ≠ [])
    (h : m.alloc = some (p, m')) :
    p = (lowestFree m.b.physFree).1 ∧ m'.b.pageMap = m.b.pageMap := by
  rw [Maps.alloc, if_neg hfree] at h
  cases h
  exact ⟨rfl, rfl⟩

section round
variable {id e : ℕ} {page : Page ps}

/-- The physical page that a candidate moves to is below its own and held by no entry. -/
theorem Candidate.lowest (hw : Orderly w) (hc : Candidate w id e page) :
    (lowestFree w.obj.maps.b.physFree).1 ∉ mappedIds w.obj.maps.b.pageMap ∧
      (lowestFree w.obj.maps.b.physFree).1 < merePageId e := by
  have hlt : ∀ x ∈ w.obj.maps.b.physFree, x < 0xFFFFFFFF := fun x hx =>
    Nat.lt_trans (hw.apart.mem_lt_two_pow (Or.inr hx)) (by decide)
  have hmem := List.mem_of_getElem? (lowestFree_spec hc.free hlt).1
  have hnot : (lowestFree w.obj.maps.b.physFree).1 ∉ mappedIds w.obj.maps.b.pageMap := fun h =>
    hw.apart.disjoint h hmem
  have hmapped := mem_mappedIds_of_getElem? hc.entry hc.not_invalid hc.not_reserved
  exact ⟨hnot, Nat.lt_of_le_of_ne hc.le fun heq => hnot (heq ▸ hmapped)⟩

theorem inRange_putPage (hps : ps ≤ wmirepPageSize) {m m' : Maps} (hm : m.Partitioned)
    {r : ℕ × Option ℕ} (hput : m.PutPage id r m') : InRange ps r.1 := by
  rcases hput with @⟨physId, hid, hinv, hc, hr⟩ | @⟨physId, p, m', hid, hinv, hc, halloc⟩
  · have hmem := mem_mappedIds_of_getElem? hid hinv hr
    exact inRange_of_lt hps (hm.b.apart.mem_lt (Or.inl hmem)) hm.b.pages
  · obtain ⟨hp, hsound, -⟩ := hm.alloc halloc
    rw [merePageId_of_lt hp]
    exact inRange_of_lt hps (hsound.mem_lt (by simp)) hsound.pages

/-- The write of a candidate cannot fail but for the cache's write of a new physical page. -/
theorem Candidate.write (hps : ps ≤ wmirepPageSize) (hw : Orderly w) (hc : Candidate w id e page)
    (ha : (PageFileCmd.putPage id page).Allowed w) :
    (putPageTarget id).wp (fun r w₁ => (CPageCache.write r.1 page).wp
      (fun _ c => Kept (fun j => j = r.1) (cacheWorld w) c ∧ view c r.1 = some page)
      (fun _ _ => False) ⟨w₁.obj.cache, w₁.os⟩) (fun _ _ => True) w := by
  refine Prog.wp_mono (Prog.wp_and (putPageTarget_spec w id) ha) (fun r w₁ h => ?_)
    (fun _ _ _ => trivial)
  obtain ⟨⟨hin, ⟨m, hput, hb⟩, -⟩, hallowed⟩ := h
  have hstep := hb.cacheStep hw.cache
  have hspec := CPageCache.write_spec hstep.inv (inRange_putPage hps hw.maps hput) page
  have hnot : ∀ {c}, w₁.obj.cache.find r.1 = none →
      (CPageCache.write r.1 page).result ⟨w₁.obj.cache, w₁.os⟩ = .error c → False := by
    intro c hfind hres
    rcases hput with @⟨physId, hid, hinv, -, hr⟩ | @⟨physId, p, m', hid, hinv, -, -⟩
    · obtain rfl : physId = e := Option.some.inj (hid.symm.trans hc.entry)
      rw [hb.cache] at hfind
      exact hc.cached hfind
    · obtain rfl : physId = e := Option.some.inj (hid.symm.trans hc.entry)
      have hok := hallowed ⟨physId, rfl, hc.not_reserved⟩
      rw [hok] at hres
      cases hres
  refine Prog.wp_mono (Prog.wp_and (Prog.wp_run _ _) hspec) (fun _ c h => ?_) (fun _ c h => ?_)
  · exact ⟨hstep.kept.trans h.2.1.kept, h.2.2⟩
  · exact hnot h.2.2.2.1 h.1.1

/-- Writing a candidate moves it down or leaves it where it is, and loses nothing. -/
theorem Candidate.relocated (hps : ps ≤ wmirepPageSize) (hw : Orderly w)
    (hc : Candidate w id e page) (ha : (PageFileCmd.putPage id page).Allowed w) :
    (putPage id page).wp (fun _ w' => Relocated w w') (fun _ w' => Relocated w w') w := by
  refine Prog.wp_mono (putPage_spec w id page (hc.write hps hw ha)) (fun _ w' h => ?_)
    (fun _ w' h => ?_)
  · obtain ⟨hin, r, m, w₁, c, hput, hb, ⟨hkept, hview⟩, hb'⟩ := h
    have hr := inRange_putPage hps hw.maps hput
    have hstep : Step c (cacheWorld w') := hb'.cacheStep hkept.inv
    have hkept' := hkept.trans hstep.kept
    have hview' := hstep.view r.1 page hr hview
    have hmaps : w'.obj.maps.Partitioned := by
      rw [hb'.maps]
      exact hw.maps.putPage hput
    have hmap : w'.obj.maps.b.pageMap = m.b.pageMap := by
      rw [hb'.maps, PageFileCmd.release_pageMap]
    have hsame : ∀ p ∈ mappedIds w.obj.maps.b.pageMap, p ≠ r.1 → ∀ q,
        view (cacheWorld w) p = some q → view (cacheWorld w') p = some q :=
      fun p hp hne q => hkept'.view p q hne (hw.inRange hps hp)
    rcases hput with @⟨physId, hid, hinv, hcur, hres⟩ | @⟨physId, p, m', hid, hinv, hcur, halloc⟩
    · obtain rfl : physId = e := Option.some.inj (hid.symm.trans hc.entry)
      refine .of_maps hps hw hkept'.inv hb'.maps fun p hp q hq => ?_
      by_cases heq : p = merePageId physId
      · subst heq
        rw [hc.bytes] at hq
        rw [← Option.some.inj hq]
        exact hview'
      · exact hsame p hp heq q hq
    · obtain rfl : physId = e := Option.some.inj (hid.symm.trans hc.entry)
      obtain ⟨rfl, hmap'⟩ := alloc_lowest hc.free halloc
      obtain ⟨hnot, hlt⟩ := hc.lowest hw
      have hp := (hw.maps.alloc halloc).1
      have hlen := (List.getElem?_eq_some_iff.mp hid).1
      simp only [Maps.mapCurrent, hmap'] at hmap
      refine ⟨⟨hmaps, hkept'.inv⟩, fun i x hi => ?_, content_of_entries hps hw
        ⟨hmaps, hkept'.inv⟩ fun i => ?_⟩
      · rw [hmap]
        by_cases hne : id = i
        · subst hne
          obtain rfl : physId = x := Option.some.inj (hid.symm.trans hi)
          refine ⟨_, List.getElem?_set_self hlen, Or.inr ?_⟩
          rwa [merePageId_or_current, merePageId_of_lt hp]
        · exact ⟨x, by rw [List.getElem?_set_ne hne, hi], Or.inl rfl⟩
      · rw [hmap]
        by_cases hne : id = i
        · subst hne
          rw [hid, List.getElem?_set_self hlen]
          refine .some (.page (entryIds_merePageId hinv hc.not_reserved) (entryIds_or_current hp)
            fun q hq => ?_)
          rw [hc.bytes] at hq
          rw [← Option.some.inj hq]
          rwa [merePageId_of_lt hp] at hview'
        · rw [List.getElem?_set_ne hne]
          rcases hi : w.obj.maps.b.pageMap[i]? with _ | x
          · exact .none
          · refine .some ?_
            by_cases hno : x = invalidPage ∨ x = reservedPage
            · exact .unmapped (if_pos hno) (if_pos hno)
            · have hmem := mem_mappedIds_of_getElem? hi (mt Or.inl hno) (mt Or.inr hno)
              refine .page (if_neg hno) (if_neg hno) (hsame _ hmem fun heq => hnot ?_)
              rw [merePageId_of_lt hp] at heq
              exact heq ▸ hmem
  · rcases h with h | ⟨-, r, m, w₁, e, c, -, -, hfalse, -⟩
    · exact .of_reads hps hw ⟨h.maps, h.cacheStep hw.cache⟩
    · exact hfalse.elim

/-- Where the cache's write of the new physical page fails, the old one is held nowhere. -/
theorem putPage_lost (hw : Orderly w) (hn : ¬(PageFileCmd.putPage id page).Allowed w) :
    (putPage id page).wp (fun _ _ => False)
      (fun _ w' => ∃ p < w'.obj.physPagesB, p ∉ w'.obj.heldPages) w := by
  have hfails : ∃ r, (putPageTarget id).result w = .ok r ∧ PageFileCmd.Replaces r ∧
      (CPageCache.write r.1 page).result ⟨((putPageTarget id).after w).obj.cache,
        ((putPageTarget id).after w).os⟩ ≠ .ok () := by
    by_contra hnone
    refine hn (Prog.wp_result.mpr ⟨fun r hr hrep => ?_, fun _ _ => trivial⟩)
    by_contra hne
    exact hnone ⟨r, hr, hrep, hne⟩
  obtain ⟨r, hr, hrep, hfail⟩ := hfails
  simp only [putPage, Prog.wp_bind]
  refine Prog.wp_mono (Prog.wp_and (Prog.wp_run _ w) (putPageTarget_spec w id))
    (fun r' w₁ h => ?_) (fun _ _ h => ?_)
  · obtain ⟨⟨hr', rfl⟩, -, ⟨m, hput, hb⟩, -⟩ := h
    obtain rfl : r = r' := Except.ok.inj (hr.symm.trans hr')
    simp only [Prog.wp_bind]
    rw [wp_onCache]
    refine Prog.wp_mono (Prog.wp_run _ _) (fun _ _ h => absurd h.1 hfail) (fun _ c _ => ?_)
    have hmaps := hb.afterCache c
    obtain ⟨old, hold, hres⟩ := hrep
    rcases hput with _ | @⟨physId, p, m', hid, hinv, hcur, halloc⟩
    · cases hold
    · obtain rfl : physId = old := Option.some.inj hold
      obtain ⟨hp, hsound, -, hmap, hfree⟩ := hw.maps.alloc halloc
      have hnot : id ∉ m'.b.logicalFree := fun hmem => by
        have hsame := hw.maps.b.free_invalid id (hfree ▸ hmem)
        rw [hid] at hsame
        exact hinv (Option.some.inj hsame)
      have hnew : m'.b.Sound (entryIds (p ||| currentTransaction) ++ m'.deferred) := by
        rw [entryIds_or_current hp]
        exact hsound
      have hset := hnew.set (hmap ▸ hid) hnot
      rw [entryIds_merePageId hinv hres] at hset
      refine ⟨merePageId physId, ?_, ?_⟩
      · change _ < (afterCache ((putPageTarget id).after w) c).obj.maps.b.physPages
        rw [hmaps]
        exact hset.mem_lt (by simp)
      · change _ ∉ mappedIds (afterCache ((putPageTarget id).after w) c).obj.maps.b.pageMap ++
          ((afterCache ((putPageTarget id).after w) c).obj.maps.b.physFree ++
          ((afterCache ((putPageTarget id).after w) c).obj.maps.b.replaced ++
            (afterCache ((putPageTarget id).after w) c).obj.maps.deferred))
        rw [hmaps, ← List.count_eq_zero]
        have hcount := hset.held.count_eq (merePageId physId)
        have hone := count_range_le (merePageId physId) m'.b.physPages
        simp only [Maps.mapCurrent, List.count_append, List.count_cons_self,
          List.count_nil] at hcount ⊢
        omega
  · rw [hr] at h
    cases h.1.1

end round

/-- In each round the cache takes the page that moves to a new physical page. -/
def MovesWritten : ℕ → World (CPageFile ps) → Prop
  | 0, _ => True
  | n + 1, w => compactRead.wp (fun r w₁ => ∀ id page, r = some (id, page) →
      (PageFileCmd.putPage id page).Allowed w₁ ∧
        (putPage id page).wp (fun _ w₂ => MovesWritten n w₂) (fun _ _ => True) w₁)
      (fun _ _ => True) w

theorem compactPages_relocated (hps : ps ≤ wmirepPageSize) (n : ℕ) (hw : Orderly w)
    (hn : MovesWritten n w) :
    (compactPages n).wp (fun _ w' => Relocated w w') (fun _ w' => Relocated w w') w := by
  induction n generalizing w with
  | zero => exact .of_reads hps hw ⟨rfl, .refl hw.cache⟩
  | succ n ih =>
    simp only [compactPages, Prog.wp_bind]
    refine Prog.wp_mono (Prog.wp_and (compactRead_spec hps hw) hn) (fun r w₁ h => ?_)
      (fun _ w₁ h => .of_reads hps hw h.1)
    obtain ⟨⟨hreads, hcand⟩, hnext⟩ := h
    have h₁ := Relocated.of_reads hps hw hreads
    rcases r with _ | ⟨id, page⟩
    · exact h₁
    obtain ⟨e, hc⟩ := hcand id page rfl
    obtain ⟨hallowed, hnext⟩ := hnext id page rfl
    simp only [Prog.wp_bind]
    refine Prog.wp_mono (Prog.wp_and (hc.relocated hps h₁.orderly hallowed) hnext)
      (fun _ w₂ h₂ => ?_) (fun _ w₂ h₂ => h₁.trans h₂.1)
    have h₁₂ := h₁.trans h₂.1
    exact Prog.wp_mono (ih h₁₂.orderly h₂.2) (fun _ _ h => h₁₂.trans h) (fun _ _ h => h₁₂.trans h)

theorem compactPages_lost (hps : ps ≤ wmirepPageSize) (n : ℕ) (hw : Orderly w)
    (hn : ¬MovesWritten n w) :
    (compactPages n).wp (fun _ _ => False)
      (fun _ w' => ∃ p < w'.obj.physPagesB, p ∉ w'.obj.heldPages) w := by
  induction n generalizing w with
  | zero => exact absurd trivial hn
  | succ n ih =>
    simp only [compactPages, Prog.wp_bind]
    refine Prog.wp_mono (Prog.wp_and (compactRead_spec hps hw) (Prog.wp_of_not hn))
      (fun r w₁ h => ?_) (fun _ _ h => h.2.elim)
    obtain ⟨⟨hreads, hcand⟩, hnot⟩ := h
    have hw₁ := hw.reads hreads
    rcases r with _ | ⟨id, page⟩
    · exact hnot fun _ _ hr => by cases hr
    obtain ⟨e, hc⟩ := hcand id page rfl
    simp only [Prog.wp_bind]
    by_cases hallowed : (PageFileCmd.putPage id page).Allowed w₁
    · have hrest : ¬(putPage id page).wp (fun _ w₂ => MovesWritten n w₂) (fun _ _ => True) w₁ := by
        intro hrest
        refine hnot fun id' page' heq => ?_
        cases heq
        exact ⟨hallowed, hrest⟩
      exact Prog.wp_mono (Prog.wp_and (hc.relocated hps hw₁ hallowed) (Prog.wp_of_not hrest))
        (fun _ w₂ h₂ => ih h₂.1.orderly h₂.2) (fun _ _ h₂ => h₂.2.elim)
    · exact Prog.wp_mono (putPage_lost hw₁ hallowed) (fun _ _ h => h.elim) (fun _ _ h => h)

end CPageFile

/-- The calls of a page file, with compactions. -/
inductive FileCall (ps : ℕ)
  | call (c : PageFileCmd ps)
  | compactPages (dwNumPages : ℕ)

namespace FileCall
open CPageFile

def step : FileCall ps → World (CPageFile ps) → World (CPageFile ps)
  | .call c => c.step
  | .compactPages dwNumPages => (CPageFile.compactPages dwNumPages).after

/-- The calls meet the condition under which they keep the partition, and map files are not the
data file. -/
def Allowed : FileCall ps → World (CPageFile ps) → Prop
  | .call c, w => c.Allowed w ∧ ∀ hFile pos, c = .transCheckpoint hFile pos →
    hFile ≠ w.obj.cache.hFile
  | .compactPages dwNumPages, w => MovesWritten dwNumPages w

theorem step_orderly (hps : ps ≤ wmirepPageSize) {c : FileCall ps} {w : World (CPageFile ps)}
    (hc : c.Allowed w) (hw : Orderly w) : Orderly (c.step w) := by
  cases c with
  | compactPages n =>
    exact (Prog.after_of_wp (P := fun w' => Relocated w w')
      (compactPages_relocated hps n hw hc)).orderly
  | call c =>
    refine ⟨PageFileCmd.step_partitioned hc.1 hw.maps, ?_⟩
    by_cases hput : ∃ id page, c = .putPage id page
    · obtain ⟨id, page, rfl⟩ := hput
      rcases putPage_kept hw.cache id page fun r m _ h => inRange_putPage hps hw.maps h with
        h | ⟨_, _, -, -, h⟩
      · exact h.inv
      · exact h.inv
    by_cases hcheck : ∃ hFile pos, c = .transCheckpoint hFile pos
    · obtain ⟨hFile, pos, rfl⟩ := hcheck
      exact (transCheckpoint_kept hw.cache (hc.2 hFile pos rfl) pos).1
    · exact (PageFileCmd.step_cacheStep hps hw.cache hw.apart
        (fun id page heq => hput ⟨id, page, heq⟩) fun hFile pos heq => hcheck ⟨hFile, pos, heq⟩).inv

theorem run_orderly {hFile : FileName} {cacheSize cacheSpillRatio : ℕ} {o : Os}
    {cs : List (FileCall ps)} (hps : 0 < ps) (hps' : ps ≤ wmirepPageSize) (hcache : 0 < cacheSize)
    (hcs : Along step Allowed cs (PageFileCmd.start hFile cacheSize cacheSpillRatio o)) :
    Orderly (runAll step cs (PageFileCmd.start hFile cacheSize cacheSpillRatio o)) := by
  refine runAll_invariant (I := Orderly) (fun _ _ => step_orderly hps') ?_ hcs
  exact ⟨PageFileCmd.start_partitioned hFile cacheSize cacheSpillRatio o, hps, hcache,
    List.nodup_nil, fun _ h => absurd h List.not_mem_nil, fun _ h => absurd h List.not_mem_nil⟩

end FileCall

/-- Every logical page has its bytes, none is at a higher physical page, and each physical page of
the file is in exactly one place. -/
structure CPageFile.Preserved (w w' : World (CPageFile ps)) : Prop where
  content : ∀ id, content w' id = content w id
  lower : ∀ id e : ℕ, w.obj.pageMapB.data[id]? = some e → ∃ e' : ℕ,
    w'.obj.pageMapB.data[id]? = some e' ∧ (e' = e ∨ merePageId e' < merePageId e)
  held : ∀ p < w'.obj.physPagesB, w'.obj.heldPages.count p = 1
  pages : ∀ p ∈ w'.obj.heldPages, p < w'.obj.physPagesB

open CPageFile FileCall in
/-- After every admissible run a compaction preserves the file exactly if the cache takes each page
that the compaction moves. -/
theorem compactPages_preserved_iff (hps : 0 < ps) (hps' : ps ≤ wmirepPageSize) (hFile : FileName)
    {cacheSize : ℕ} (hcache : 0 < cacheSize) (cacheSpillRatio : ℕ) (o : Os)
    (cs : List (FileCall ps))
    (hcs : Along step Allowed cs (PageFileCmd.start hFile cacheSize cacheSpillRatio o)) (n : ℕ) :
    let w := runAll step cs (PageFileCmd.start hFile cacheSize cacheSpillRatio o)
    AllReadable w → (Preserved w ((CPageFile.compactPages n).after w) ↔ MovesWritten n w) := by
  intro w hread
  have hw : Orderly w := run_orderly hps hps' hcache hcs
  constructor
  · intro h
    by_contra hn
    have hlost := Prog.after_of_wp (P := fun w' => ∃ p < w'.obj.physPagesB, p ∉ w'.obj.heldPages)
      (Prog.wp_mono (compactPages_lost hps' n hw hn) (fun _ _ h => h.elim) (fun _ _ h => h))
    obtain ⟨p, hlt, hnot⟩ := hlost
    have hone := h.held p hlt
    rw [List.count_eq_zero.mpr hnot] at hone
    cases hone
  · intro hn
    have h := Prog.after_of_wp (P := fun w' => Relocated w w')
      (compactPages_relocated hps' n hw hn)
    refine ⟨(h.content hread).2, h.lower, fun p hlt => ?_, fun p => h.orderly.maps.b.mem_lt⟩
    exact (h.orderly.maps.b.held.count_eq p).trans
      (List.count_eq_one_of_mem List.nodup_range (List.mem_range.mpr hlt))

section runs
open CPageFile FileCall

/-- Two pages are committed and the first one is freed; the compaction moves the second one down. -/
theorem compactPages_preserved_iff_moves :
    let cs : List (FileCall 1) := [.call .transBegin, .call (.newPage 2),
      .call (.putPage 0 ⟨[7], rfl⟩), .call (.putPage 1 ⟨[8], rfl⟩), .call .transCommit,
      .call .transBegin, .call (.freePage 0), .call .transCommit, .call .transBegin]
    let w := runAll step cs (freshFile 1)
    let w' := (CPageFile.compactPages 1).after w
    Preserved w w' ∧ w.obj.pageMapB.data = [invalidPage, 1 ||| previousTransaction] ∧
      w'.obj.pageMapB.data = [invalidPage, 0 ||| currentTransaction] := by
  intro cs w w'
  have hcs : Along step Allowed cs (freshFile 1) := by
    refine ⟨⟨trivial, nofun⟩, ⟨trivial, nofun⟩, ⟨?_, nofun⟩, ⟨?_, nofun⟩, ⟨?_, nofun⟩,
      ⟨trivial, nofun⟩, ⟨?_, nofun⟩, ⟨?_, nofun⟩, ⟨trivial, nofun⟩, trivial⟩
    · rintro ⟨physId, h, hne⟩
      cases h
      exact absurd rfl hne
    · rintro ⟨physId, h, hne⟩
      cases h
      exact absurd rfl hne
    · exact fun _ _ => by decide
    · exact fun _ _ => show 0 < 2 ^ 30 by decide
    · exact fun _ _ => by decide
  have hread : AllReadable w := by
    intro p hp
    rw [show mappedIds w.obj.pageMapB.data = [1] from rfl, List.mem_singleton] at hp
    subst hp
    decide
  have hmoves : MovesWritten 1 w := by
    intro id page h
    cases h
    exact ⟨fun _ => rfl, trivial⟩
  exact ⟨(compactPages_preserved_iff (by decide) (by decide) .objectsData (by decide) 4
    ⟨[], [], fun _ => [], []⟩ cs hcs 1 hread).mpr hmoves, rfl, rfl⟩

/-- The cache has no memory for the page that is moved: the page's old place is in none of the
lists. -/
theorem not_compactPages_preserved :
    ¬∀ (cs : List (FileCall wmirepPageSize)) (n : ℕ),
      let w := runAll step cs (PageFileCmd.start .objectsData 1 4
        ⟨List.replicate 15 (some 0) ++ [none], [], fun _ => [], []⟩)
      w.obj.inTransaction = true → Preserved w ((CPageFile.compactPages n).after w) := by
  intro h
  let zeros : Page wmirepPageSize := ⟨List.replicate _ 0, List.length_replicate⟩
  have hp := h [.call .transBegin, .call (.newPage 2), .call (.putPage 0 zeros),
    .call (.putPage 1 zeros), .call .transCommit, .call .transBegin, .call (.freePage 0),
    .call .transCommit, .call .transBegin] 1 (by decide +kernel)
  have hone := hp.held 1 (by decide +kernel)
  exact absurd hone (by decide +kernel)

end runs

end NtAdmin.Wmi.PageMgr
