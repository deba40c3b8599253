import NtAdmin.Wmi.PageMgr.PageFileRun

/-! The physical pages of the committed generation are out of reach of an open transaction. -/
namespace NtAdmin.Wmi.PageMgr

open NtAdmin.Lib

/-- No physical page of a generation, with those in `extra`, is held twice. -/
structure Generation.Apart (g : Generation) (extra : List ℕ) : Prop where
  held : ∀ p, (mappedIds g.pageMap).count p + g.physFree.count p + g.replaced.count p +
    extra.count p ≤ (List.range g.physPages).count p
  pages : g.physPages ≤ maxNumPages

/-- The physical pages that the current transaction has mapped. -/
def currentIds (l : List ℕ) : List ℕ :=
  mappedIds (l.filter fun e => e &&& currentTransaction ≠ 0)

/-- What the current transaction cannot reach: the pages of generation A. -/
structure Maps.Isolated (m : Maps) : Prop where
  a : m.a.Apart []
  b : m.b.Apart m.deferred
  settled : ∀ e ∈ m.a.pageMap, e ≠ invalidPage → e &&& currentTransaction = 0
  apart : m.inTransaction = true → ∀ p ∈ mappedIds m.a.pageMap,
    p < m.b.physPages ∧ p ∉ m.b.physFree ∧ p ∉ currentIds m.b.pageMap
  synced : m.inTransaction = false → m.b.physFree = m.a.physFree ∧
    m.b.logicalFree = m.a.logicalFree ∧ m.b.physPages = m.a.physPages ∧
    m.b.pageMap.map entryIds = m.a.pageMap.map entryIds

section lists

theorem count_range_le (p n : ℕ) : (List.range n).count p ≤ 1 :=
  List.nodup_iff_count_le_one.mp List.nodup_range p

theorem mem_range_of_count {p n k : ℕ} (h : k ≤ (List.range n).count p) (hk : 0 < k) : p < n :=
  List.mem_range.mp (List.count_pos_iff.mp (Nat.lt_of_lt_of_le hk h))

theorem count_mappedIds_set {l : List ℕ} {i e : ℕ} (h : l[i]? = some e) (e' p : ℕ) :
    (entryIds e).count p + (mappedIds (l.set i e')).count p =
      (entryIds e').count p + (mappedIds l).count p := by
  simpa only [List.count_append] using (mappedIds_set h e').count_eq p

/-- An entry that gives up its physical page. -/
theorem count_mappedIds_set_le {e' : ℕ} (he' : entryIds e' = []) (l : List ℕ) (i p : ℕ) :
    (mappedIds (l.set i e')).count p ≤ (mappedIds l).count p := by
  rcases hi : l[i]? with _ | e
  · rw [List.set_eq_of_length_le (List.getElem?_eq_none_iff.mp hi)]
  · have := count_mappedIds_set hi e' p
    rw [he', List.count_nil] at this
    omega

theorem mem_currentIds {l : List ℕ} {p : ℕ} :
    p ∈ currentIds l ↔ ∃ e ∈ l, e &&& currentTransaction ≠ 0 ∧ e ≠ invalidPage ∧
      e ≠ reservedPage ∧ merePageId e = p := by
  simp only [currentIds, mem_mappedIds, List.mem_filter, decide_eq_true_eq, and_assoc]

theorem mem_of_mem_currentIds_set {l : List ℕ} {i e' p : ℕ} (h : p ∈ currentIds (l.set i e')) :
    p ∈ entryIds e' ∨ p ∈ currentIds l := by
  obtain ⟨e, he, hcur, hinv, hres, rfl⟩ := mem_currentIds.mp h
  rcases List.mem_or_eq_of_mem_set he with he | rfl
  · exact Or.inr (mem_currentIds.mpr ⟨e, he, hcur, hinv, hres, rfl⟩)
  · exact Or.inl (by rw [entryIds_merePageId hinv hres]; exact List.mem_singleton_self _)

theorem currentIds_eq_nil {l : List ℕ}
    (h : ∀ e ∈ l, e ≠ invalidPage → e &&& currentTransaction = 0) : currentIds l = [] := by
  refine List.eq_nil_iff_forall_not_mem.mpr fun p hp => ?_
  obtain ⟨e, he, hcur, hinv, -, -⟩ := mem_currentIds.mp hp
  exact hcur (h e he hinv)

theorem reservedPage_not_mem {l : List ℕ}
    (h : ∀ e ∈ l, e ≠ invalidPage → e &&& currentTransaction = 0) : reservedPage ∉ l :=
  fun hmem => absurd (h _ hmem (by decide)) (by decide)

theorem settled_moveCurrentToPrevious {l : List ℕ} :
    ∀ e ∈ moveCurrentToPrevious l, e ≠ invalidPage → e &&& currentTransaction = 0 := by
  intro e he hinv
  obtain ⟨e', -, rfl⟩ := List.mem_map.mp he
  split_ifs at hinv ⊢ with hc
  · exact and_current_eq_zero (or_previous_lt (merePageId_lt e'))
  · by_contra hne
    exact hc ⟨hinv, hne⟩

theorem settled_stripHiBits {l : List ℕ} :
    ∀ e ∈ stripHiBits l, e ≠ invalidPage → e &&& currentTransaction = 0 := by
  intro e he hinv
  obtain ⟨e', -, rfl⟩ := List.mem_map.mp he
  split_ifs at hinv ⊢ with hc
  · exact and_current_eq_zero (Nat.lt_trans (merePageId_lt e') (by decide))
  · exact absurd (not_not.mp hc) hinv

theorem map_entryIds_stripHiBits {l : List ℕ} (h : reservedPage ∉ l) :
    (stripHiBits l).map entryIds = l.map entryIds := by
  rw [stripHiBits, List.map_map]
  refine List.map_congr_left fun e he => ?_
  have hne : e ≠ reservedPage := fun hr => h (hr ▸ he)
  simp only [Function.comp_apply]
  split_ifs with hc
  · rw [entryIds_merePageId hc hne, entryIds_of_lt, merePageId_merePageId]
    exact Nat.lt_trans (merePageId_lt e) (by decide)
  · rfl

/-- The entries of `l'` are those of `l`, apart from some that gave up their physical page. -/
structure Loses (l l' : List ℕ) : Prop where
  count : ∀ p, (mappedIds l').count p ≤ (mappedIds l).count p
  current : ∀ p ∈ currentIds l', p ∈ currentIds l

theorem Loses.refl (l : List ℕ) : Loses l l := ⟨fun _ => Nat.le_refl _, fun _ => id⟩

theorem Loses.trans {l l' l'' : List ℕ} (h : Loses l l') (h' : Loses l' l'') : Loses l l'' :=
  ⟨fun p => (h'.count p).trans (h.count p), fun p hp => h.current p (h'.current p hp)⟩

theorem Loses.set {e' : ℕ} (he' : entryIds e' = []) (l : List ℕ) (i : ℕ) : Loses l (l.set i e') :=
  ⟨count_mappedIds_set_le he' l i, fun p hp =>
    (mem_of_mem_currentIds_set hp).resolve_left (by simp [he'])⟩

theorem Loses.markReserved (l : List ℕ) (id count : ℕ) : Loses l (markReserved l id count) := by
  induction count with
  | zero => exact .refl l
  | succ count ih =>
    rw [markReserved_succ]
    exact ih.trans (.set rfl _ _)

theorem Loses.appendReserved (l : List ℕ) (n : ℕ) :
    Loses l (l ++ List.replicate n reservedPage) := by
  have hmem : ∀ {p}, p ∈ mappedIds (List.replicate n reservedPage) → False := fun hp => by
    obtain ⟨e, he, -, hres, -⟩ := mem_mappedIds.mp hp
    exact hres (List.eq_of_mem_replicate he)
  refine ⟨fun p => ?_, fun p hp => ?_⟩
  · rw [mappedIds_append, List.count_append, List.count_eq_zero.mpr fun hp => hmem hp]
    exact Nat.le_refl _
  · obtain ⟨e, he, hcur, hinv, hres, rfl⟩ := mem_currentIds.mp hp
    rcases List.mem_append.mp he with he | he
    · exact mem_currentIds.mpr ⟨e, he, hcur, hinv, hres, rfl⟩
    · exact absurd (List.eq_of_mem_replicate he) hres

end lists

namespace Generation.Apart
variable {g : Generation} {extra : List ℕ}

theorem mem_lt (h : g.Apart extra) {p : ℕ} (hp : p ∈ mappedIds g.pageMap ∨ p ∈ g.physFree) :
    p < g.physPages := by
  refine mem_range_of_count (h.held p) ?_
  rcases hp with hp | hp
  · have := List.count_pos_iff.mpr hp
    omega
  · have := List.count_pos_iff.mpr hp
    omega

theorem mem_lt_two_pow (h : g.Apart extra) {p : ℕ} (hp : p ∈ mappedIds g.pageMap ∨ p ∈ g.physFree) :
    p < 2 ^ 30 :=
  Nat.lt_trans (Nat.lt_of_lt_of_le (h.mem_lt hp) h.pages) (by decide)

theorem disjoint (h : g.Apart extra) {p : ℕ} (hp : p ∈ mappedIds g.pageMap) : p ∉ g.physFree := by
  intro hfree
  have h₁ := List.count_pos_iff.mpr hp
  have h₂ := List.count_pos_iff.mpr hfree
  have h₃ := h.held p
  have h₄ := count_range_le p g.physPages
  omega

/-- The lists and the map may lose pages and exchange them. -/
theorem of_count (h : g.Apart extra) {g' : Generation} {extra' : List ℕ}
    (hp : g'.physPages = g.physPages)
    (hc : ∀ p, (mappedIds g'.pageMap).count p + g'.physFree.count p + g'.replaced.count p +
      extra'.count p ≤ (mappedIds g.pageMap).count p + g.physFree.count p + g.replaced.count p +
      extra.count p) : g'.Apart extra' :=
  ⟨fun p => hp ▸ (hc p).trans (h.held p), hp ▸ h.pages⟩

end Generation.Apart

namespace Maps.Isolated
variable {m : Maps}

theorem apart_resync (ha : m.a.Apart [])
    (hs : ∀ e ∈ m.a.pageMap, e ≠ invalidPage → e &&& currentTransaction = 0) :
    ∀ p ∈ mappedIds m.a.pageMap,
      p < m.a.physPages ∧ p ∉ m.a.physFree ∧ p ∉ currentIds m.a.pageMap := fun p hp =>
  ⟨ha.mem_lt (Or.inl hp), ha.disjoint hp, by simp [currentIds_eq_nil hs]⟩

theorem resync (h : m.Isolated) (t : Bool) :
    Maps.Isolated { m.resync with inTransaction := t } :=
  ⟨h.a, h.a, h.settled, fun _ => apart_resync h.a h.settled, fun _ => ⟨rfl, rfl, rfl, rfl⟩⟩

theorem commit (h : m.Isolated) (hr : reservedPage ∉ m.b.pageMap) : m.commit.Isolated := by
  have hb : m.commit.b.Apart [] := by
    refine h.b.of_count rfl fun p => ?_
    simp only [Maps.commit, mappedIds_moveCurrentToPrevious hr, List.count_append,
      List.count_reverse, List.count_nil]
    omega
  exact ⟨hb, hb, settled_moveCurrentToPrevious, fun hin => (nomatch hin : False).elim,
    fun _ => ⟨rfl, rfl, rfl, rfl⟩⟩

theorem strip (h : m.Isolated) (hin : m.inTransaction = false) : m.strip.Isolated := by
  have hr := reservedPage_not_mem h.settled
  have hs := h.synced hin
  refine ⟨h.a.of_count rfl fun p => ?_, h.b, settled_stripHiBits,
    fun hin' => absurd hin (by simp [show m.inTransaction = true from hin']), fun _ =>
    ⟨hs.1, hs.2.1, hs.2.2.1, hs.2.2.2.trans (map_entryIds_stripHiBits hr).symm⟩⟩
  simp only [Maps.strip, mappedIds_stripHiBits hr]
  omega

theorem checkpoint (h : m.Isolated) (hin : m.inTransaction = false) : m.checkpoint.Isolated := by
  have ha : m.checkpoint.a.Apart [] := by
    refine h.a.of_count rfl fun p => ?_
    simp only [Maps.checkpoint, Maps.strip, mappedIds_stripHiBits (reservedPage_not_mem h.settled),
      List.count_append, List.count_reverse, List.count_nil]
    omega
  exact ⟨ha, ha, settled_stripHiBits,
    fun hin' => absurd hin (by simp [show m.inTransaction = true from hin']),
    fun _ => ⟨rfl, rfl, rfl, rfl⟩⟩

/-- A step inside a transaction. -/
theorem of_open (h : m.Isolated) {m' : Maps} (ha : m'.a = m.a) (hin : m'.inTransaction = true)
    (hb : m'.b.Apart m'.deferred) (hp : ∀ p ∈ mappedIds m.a.pageMap,
      p < m'.b.physPages ∧ p ∉ m'.b.physFree ∧ p ∉ currentIds m'.b.pageMap) : m'.Isolated :=
  ⟨ha ▸ h.a, hb, ha ▸ h.settled, fun _ => ha ▸ hp,
    fun hout => absurd hin (by simp [hout])⟩

theorem loses (h : m.Isolated) (hin : m.inTransaction = true) {l : List ℕ}
    (hl : Loses m.b.pageMap l) (logicalFree : List ℕ) :
    Maps.Isolated { m with b := { m.b with pageMap := l, logicalFree := logicalFree } } := by
  refine h.of_open rfl hin (h.b.of_count rfl fun p => ?_) fun p hp => ?_
  · have := hl.count p
    dsimp only
    omega
  · obtain ⟨hlt, hfree, hcur⟩ := h.apart hin p hp
    exact ⟨hlt, hfree, fun hmem => hcur (hl.current p hmem)⟩

theorem newPage {count id : ℕ} {m' : Maps} (h : m.Isolated) (hin : m.inTransaction = true)
    (hnew : m.NewPage count id m') : m'.Isolated := by
  rcases hnew with _ | _ | _ | _
  · exact h.loses hin (.set rfl _ _) _
  · exact h.loses hin (.markReserved _ _ _) _
  · exact h.loses hin (.appendReserved _ _) _
  · exact h.loses hin (.appendReserved _ _) _

/-- An entry has left the map, and its physical page goes to one of the lists. -/
theorem retire {physId : ℕ} (h : m.Isolated) {m' : Maps} (ha : m'.a = m.a)
    (hin : m'.inTransaction = true) (hb : m'.b.Apart (entryIds physId ++ m'.deferred))
    (hinv : physId ≠ invalidPage)
    (hp : ∀ p ∈ mappedIds m.a.pageMap,
      p < m'.b.physPages ∧ p ∉ m'.b.physFree ∧ p ∉ currentIds m'.b.pageMap)
    (hcur : physId ≠ reservedPage → physId &&& currentTransaction ≠ 0 →
      merePageId physId ∉ mappedIds m.a.pageMap) : (m'.retire physId).Isolated := by
  unfold Maps.retire
  have hcount := hb.held
  split_ifs with hr hc hprev
  · exact h.of_open ha hin (hb.of_count rfl fun p => by simp only [List.count_append]; omega) hp
  all_goals
    rw [entryIds_merePageId hinv hr] at hb
  · refine h.of_open ha hin (hb.of_count rfl fun p => ?_) fun p hmem => ?_
    · simp only [List.count_append]
      omega
    · obtain ⟨hlt, hfree, hcur'⟩ := hp p hmem
      refine ⟨hlt, fun hmem' => ?_, hcur'⟩
      rcases List.mem_append.mp hmem' with hmem' | hmem'
      · exact hfree hmem'
      · exact hcur hr hc (List.mem_singleton.mp hmem' ▸ hmem)
  · refine h.of_open ha hin (hb.of_count rfl fun p => ?_) hp
    simp only [List.count_append]
    omega
  · refine h.of_open ha hin (hb.of_count rfl fun p => ?_) hp
    simp only [List.count_append]
    omega

theorem freePage {id physId : ℕ} (h : m.Isolated) (hin : m.inTransaction = true)
    (hid : m.b.pageMap[id]? = some physId) (hinv : physId ≠ invalidPage) :
    (m.freePage id physId).Isolated := by
  refine h.retire rfl hin (h.b.of_count rfl fun p => ?_) hinv (fun p hp => ?_) fun hr hc hmem => ?_
  · have := count_mappedIds_set hid invalidPage p
    simp only [entryIds_invalid, List.count_nil, List.count_append] at *
    omega
  · obtain ⟨hlt, hfree, hcur⟩ := h.apart hin p hp
    exact ⟨hlt, hfree, fun hmem => hcur ((Loses.set rfl _ _).current p hmem)⟩
  · exact (h.apart hin _ hmem).2.2 (mem_currentIds.mpr
      ⟨physId, List.mem_of_getElem? hid, hc, hinv, hr, rfl⟩)

/-- The physical page that `AllocPhysPage` returns belongs to nobody. -/
theorem alloc {p : ℕ} {m' : Maps} (h : m.Isolated) (hin : m.inTransaction = true)
    (hp : m.alloc = some (p, m')) :
    p < 2 ^ 30 ∧ p ∉ mappedIds m.a.pageMap ∧ m'.b.Apart (p :: m'.deferred) ∧ m'.a = m.a ∧
      m'.inTransaction = m.inTransaction ∧ m'.b.pageMap = m.b.pageMap ∧
      m.b.physPages ≤ m'.b.physPages ∧ ∀ q ∈ m'.b.physFree, q ∈ m.b.physFree := by
  unfold Maps.alloc at hp
  split_ifs at hp with hnil hfull
  · obtain ⟨rfl, rfl⟩ := Prod.mk.injEq .. ▸ Option.some.inj hp
    have hlt : m.b.physPages < maxNumPages := Nat.lt_of_le_of_ne h.b.pages hfull
    refine ⟨Nat.lt_trans hlt (by decide), fun hmem => ?_, ⟨fun q => ?_, hlt⟩, rfl, rfl, rfl,
      Nat.le_succ _, fun _ => id⟩
    · exact absurd (h.apart hin _ hmem).1 (Nat.lt_irrefl _)
    · have := h.b.held q
      simp only [List.range_succ, List.count_append, List.count_cons, List.count_nil]
      omega
  · obtain ⟨rfl, rfl⟩ := Prod.mk.injEq .. ▸ Option.some.inj hp
    have hlt : ∀ x ∈ m.b.physFree, x < 2 ^ 30 := fun x hx => h.b.mem_lt_two_pow (Or.inr hx)
    obtain ⟨hget, -⟩ := lowestFree_spec hnil fun x hx => Nat.lt_trans (hlt x hx) (by decide)
    obtain ⟨hlen, hget⟩ := List.getElem?_eq_some_iff.mp hget
    have hmem : (lowestFree m.b.physFree).1 ∈ m.b.physFree := hget ▸ List.getElem_mem hlen
    have herase := List.getElem_cons_eraseIdx_perm hlen
    rw [hget] at herase
    refine ⟨hlt _ hmem, fun hmapped => (h.apart hin _ hmapped).2.1 hmem,
      h.b.of_count rfl fun q => ?_, rfl, rfl, rfl, Nat.le_refl _,
      fun q hq => List.mem_of_mem_eraseIdx hq⟩
    have := herase.count_eq q
    simp only [List.count_cons] at *
    omega

theorem putPage {id : ℕ} {r : ℕ × Option ℕ} {m' : Maps} (h : m.Isolated)
    (hin : m.inTransaction = true) (hput : m.PutPage id r m') :
    m'.Isolated ∧ (m'.release r.2).Isolated ∧ r.1 ∉ mappedIds m.a.pageMap ∧
      r.1 < m'.b.physPages := by
  rcases hput with @⟨physId, hid, hinv, hc, hr⟩ | @⟨physId, p, m', hid, hinv, hc, hm⟩
  · have hmem := List.mem_of_getElem? hid
    refine ⟨h, h, fun hmapped => ?_, h.b.mem_lt (Or.inl (mem_mappedIds.mpr
      ⟨physId, hmem, hinv, hr, rfl⟩))⟩
    exact (h.apart hin _ hmapped).2.2 (mem_currentIds.mpr ⟨physId, hmem, hc, hinv, hr, rfl⟩)
  · obtain ⟨hp, hnot, hb, ha, hin', hmap, hpages, hfree⟩ := h.alloc hin hm
    have hid' : m'.b.pageMap[id]? = some physId := hmap ▸ hid
    have hcount (q : ℕ) := count_mappedIds_set hid' (p ||| currentTransaction) q
    rw [entryIds_or_current hp] at hcount
    have hset : Generation.Apart (m'.mapCurrent id p).b (entryIds physId ++ m'.deferred) := by
      refine hb.of_count rfl fun q => ?_
      have := hcount q
      simp only [Maps.mapCurrent, List.count_append, List.count_cons, List.count_nil] at *
      omega
    have hapart : ∀ q ∈ mappedIds m.a.pageMap, q < m'.b.physPages ∧ q ∉ m'.b.physFree ∧
        q ∉ currentIds (m'.b.pageMap.set id (p ||| currentTransaction)) := by
      intro q hq
      obtain ⟨h₁, h₂, h₃⟩ := h.apart hin q hq
      refine ⟨Nat.lt_of_lt_of_le h₁ hpages, fun hmem => h₂ (hfree q hmem), fun hmem => ?_⟩
      rcases mem_of_mem_currentIds_set hmem with hmem | hmem
      · rw [entryIds_or_current hp, List.mem_singleton] at hmem
        exact hnot (hmem ▸ hq)
      · exact h₃ (hmap ▸ hmem)
    have hin'' : (m'.mapCurrent id p).inTransaction = true := hin'.trans hin
    refine ⟨h.of_open ha hin'' (hset.of_count rfl fun q => ?_) hapart,
      h.retire ha hin'' hset hinv hapart fun hr hne => absurd (hc hr) hne, ?_, ?_⟩
    · simp only [List.count_append]
      exact Nat.add_le_add_left (Nat.le_add_left _ _) _
    · rwa [merePageId_of_lt hp]
    · rw [merePageId_of_lt hp]
      refine mem_range_of_count (hb.held p) ?_
      simp only [List.count_cons_self]
      omega

end Maps.Isolated

end NtAdmin.Wmi.PageMgr
