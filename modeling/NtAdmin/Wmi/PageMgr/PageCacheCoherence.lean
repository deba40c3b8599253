import NtAdmin.Wmi.PageMgr.PageCacheWrite

/-! Coherence of the page cache over whole runs of reads, writes, flushes, spills and evictions. -/
namespace NtAdmin.Wmi.PageMgr

open NtAdmin.Lib

variable {ps : ℕ}

inductive CacheCmd (ps : ℕ)
  | read (physId : ℕ)
  | write (physId : ℕ) (page : Page ps)
  | flush
  | spill
  | empty

namespace CacheCmd
open CPageCache

/-- The last bytes written to each page. -/
abbrev Last (ps : ℕ) := ℕ → Option (Page ps)

/-- One call and what it makes of the record of the last writes: a write that succeeds is recorded,
emptying the cache clears the record, and so does, for its page, a failing write that changed the
page in the file. -/
def step : CacheCmd ps → World (CPageCache ps) × Last ps → World (CPageCache ps) × Last ps
  | .read id, (w, last) => ((CPageCache.read id).after w, last)
  | .write id page, (w, last) =>
    let w' := (CPageCache.write id page).after w
    match (CPageCache.write id page).result w with
    | .ok _ => (w', Function.update last id (some page))
    | .error _ =>
      (w', if pageAt ps (file w') id = pageAt ps (file w) id then last
        else Function.update last id none)
  | .flush, (w, last) => (CPageCache.flush.after w, last)
  | .spill, (w, last) => (CPageCache.spill.after w, last)
  | .empty, (w, _) => (CPageCache.empty.after w, fun _ => none)

/-- The page lies below 4 GiB, and the counter of the writes since the last flush does not wrap. -/
def Allowed : CacheCmd ps → World (CPageCache ps) × Last ps → Prop
  | .read id, _ => InRange ps id
  | .write id _, (w, _) => InRange ps id ∧ w.obj.writesSinceFlush + 1 < 2 ^ 32
  | _, _ => True

/-- The cache stands for the last bytes written, and only they may be missing in the file. -/
structure Coherent (w : World (CPageCache ps)) (last : Last ps) : Prop where
  inv : Inv w
  written : ∀ id q, InRange ps id → last id = some q → view w id = some q
  dirty : ∀ id, Dirty w.obj id → last id ≠ none
  counter : (∃ id, Dirty w.obj id) → w.obj.writesSinceFlush ≠ 0

theorem Coherent.of_step {w w' : World (CPageCache ps)} {last : Last ps}
    (hc : Coherent w last) (h : Step w w') : Coherent w' last where
  inv := h.inv
  written id q hr hq := h.view id q hr (hc.written id q hr hq)
  dirty id hd := hc.dirty id (h.dirty id hd)
  counter hd := by
    rcases h.counter with heq | ⟨-, hnd⟩
    · rw [heq]
      exact hc.counter (hd.imp h.dirty)
    · exact absurd hd (not_exists.mpr hnd)

private theorem writesSinceFlush_ne_zero {w w' : World (CPageCache ps)} {id : ℕ}
    (h : WriteStep id w w') (hn : w.obj.writesSinceFlush + 1 < 2 ^ 32)
    (hd : ∃ j, Dirty w'.obj j) : w'.obj.writesSinceFlush ≠ 0 := by
  rcases h.counter with heq | ⟨-, hnd⟩
  · rw [heq, Nat.mod_eq_of_lt hn]
    exact Nat.succ_ne_zero _
  · exact absurd hd (not_exists.mpr hnd)

theorem Coherent.write_ok {w w' : World (CPageCache ps)} {last : Last ps}
    (hc : Coherent w last) {id : ℕ} {page : Page ps}
    (hn : w.obj.writesSinceFlush + 1 < 2 ^ 32) (h : WriteStep id w w')
    (hview : view w' id = some page) : Coherent w' (Function.update last id (some page)) := by
  refine ⟨h.inv, fun j q hj hq => ?_, fun j hd => ?_, writesSinceFlush_ne_zero h hn⟩
  · by_cases hji : j = id
    · subst hji
      rw [Function.update_self, Option.some.injEq] at hq
      rw [hview, hq]
    · rw [Function.update_of_ne hji] at hq
      exact h.view j q hji hj (hc.written j q hj hq)
  · by_cases hji : j = id
    · subst hji
      simp
    · rw [Function.update_of_ne hji]
      exact hc.dirty j ((h.dirty j hd).resolve_right hji)

theorem Coherent.write_error {w w' : World (CPageCache ps)} {last : Last ps}
    (hc : Coherent w last) {id : ℕ} (hn : w.obj.writesSinceFlush + 1 < 2 ^ 32)
    (h : WriteStep id w w') (hfind : w'.obj.find id = none) (hfind₀ : w.obj.find id = none) :
    Coherent w' (if pageAt ps (file w') id = pageAt ps (file w) id then last
      else Function.update last id none) := by
  have hnd : ∀ j, Dirty w'.obj j → Dirty w.obj j ∧ j ≠ id := by
    intro j hd
    have hne : j ≠ id := by
      rintro rfl
      obtain ⟨t, ht, hti, -⟩ := hd
      exact find_eq_none_iff.mp hfind (hti ▸ List.mem_map_of_mem ht)
    exact ⟨(h.dirty j hd).resolve_right hne, hne⟩
  split_ifs with hfile
  · refine ⟨h.inv, fun j q hj hq => ?_, fun j hd => hc.dirty j (hnd j hd).1,
      writesSinceFlush_ne_zero h hn⟩
    by_cases hji : j = id
    · subst hji
      have hv : view w' j = view w j := by
        simp only [view, hfind, hfind₀, hfile]
      rw [hv]
      exact hc.written j q hj hq
    · exact h.view j q hji hj (hc.written j q hj hq)
  · refine ⟨h.inv, fun j q hj hq => ?_, fun j hd => ?_, writesSinceFlush_ne_zero h hn⟩
    · by_cases hji : j = id
      · subst hji
        simp at hq
      · rw [Function.update_of_ne hji] at hq
        exact h.view j q hji hj (hc.written j q hj hq)
    · rw [Function.update_of_ne (hnd j hd).2]
      exact hc.dirty j (hnd j hd).1

theorem coherent_step (c : CacheCmd ps) (s : World (CPageCache ps) × Last ps) (ha : Allowed c s)
    (hc : Coherent s.1 s.2) : Coherent (c.step s).1 (c.step s).2 := by
  obtain ⟨w, last⟩ := s
  cases c with
  | read id =>
    exact hc.of_step (Prog.after_of_wp (Prog.wp_mono (read_spec hc.inv ha) (fun _ _ h => h.1)
      (fun _ _ h => h.1)))
  | write id page =>
    have hspec := Prog.wp_result.mp (write_spec hc.inv ha.1 page)
    simp only [step]
    rcases hres : (CPageCache.write id page).result w with e | u
    · obtain ⟨h, -, hfind₀, hfind, -⟩ := hspec.2 e hres
      exact hc.write_error ha.2 h hfind hfind₀
    · obtain ⟨h, hview⟩ := hspec.1 u hres
      exact hc.write_ok ha.2 h hview
  | flush =>
    exact hc.of_step (Prog.after_of_wp (Prog.wp_mono (flush_spec hc.inv) (fun _ _ h => h.1)
      (fun _ _ h => h.1)))
  | spill => exact hc.of_step (Prog.after_of_wp (spill_inv hc.inv))
  | empty =>
    have h := Prog.after_of_wp (Prog.wp_mono (empty_spec hc.inv) (fun _ _ h => h)
      (fun _ _ => False.elim))
    have hnd : ∀ id, ¬Dirty (CPageCache.empty.after w).obj id := by
      rintro id ⟨t, ht, -⟩
      rw [h.2.2.2.2] at ht
      cases ht
    exact ⟨h.1, nofun, fun id hd => absurd hd (hnd id), fun ⟨id, hd⟩ => absurd hd (hnd id)⟩

/-- A fresh cache, with nothing written yet. -/
def start (ps : ℕ) (hFile : FileName) (cacheSize threshold spillRatio : ℕ) (os : Os) :
    World (CPageCache ps) × Last ps :=
  (⟨CPageCache.init hFile cacheSize threshold spillRatio, os⟩, fun _ => none)

theorem coherent_run {hFile : FileName} {cacheSize threshold spillRatio : ℕ} {os : Os}
    (hps : 0 < ps) (hsize : 0 < cacheSize) {cmds : List (CacheCmd ps)}
    (hok : Along step Allowed cmds (start ps hFile cacheSize threshold spillRatio os)) :
    Coherent (runAll step cmds (start ps hFile cacheSize threshold spillRatio os)).1
      (runAll step cmds (start ps hFile cacheSize threshold spillRatio os)).2 := by
  refine runAll_invariant (I := fun s => Coherent s.1 s.2) coherent_step ?_ hok
  have hnd : ∀ id, ¬Dirty (CPageCache.init hFile cacheSize threshold spillRatio : CPageCache ps) id :=
    fun id ⟨t, ht, _⟩ => List.not_mem_nil ht
  exact ⟨⟨hps, hsize, List.nodup_nil, nofun, nofun⟩, nofun, fun id hd => absurd hd (hnd id),
    fun ⟨id, hd⟩ => absurd hd (hnd id)⟩

theorem view_of_read {w : World (CPageCache ps)} {id : ℕ} {p : Page ps} (h : Inv w)
    (hr : InRange ps id) (hres : (CPageCache.read id).result w = .ok p) : view w id = some p :=
  ((Prog.wp_result.mp (read_spec h hr)).1 p hres).2

theorem view_of_not_dirty {w : World (CPageCache ps)} {id : ℕ} (h : Inv w)
    (hd : ¬Dirty w.obj id) : view w id = pageAt ps (file w) id := by
  rcases view_cases h.nodup id with ⟨t, ht, rfl, hv⟩ | ⟨-, hv⟩
  · rw [hv, h.clean t ht]
    by_contra hne
    exact hd ⟨t, ht, rfl, by simpa using hne⟩
  · exact hv

theorem Coherent.flush {w : World (CPageCache ps)} {last : Last ps} (hc : Coherent w last)
    (hres : CPageCache.flush.result w = .ok ()) {id : ℕ} {q : Page ps} (hr : InRange ps id)
    (hq : last id = some q) :
    pageAt ps ((CPageCache.flush.after w).os.disk w.obj.hFile) id = some q := by
  obtain ⟨h, hclean⟩ := (Prog.wp_result.mp (flush_spec hc.inv)).1 () hres
  have hnd : ¬Dirty (CPageCache.flush.after w).obj id := by
    rcases hclean with ⟨h0, hsame⟩ | hclean
    · rw [hsame]
      exact fun hd => hc.counter ⟨id, hd⟩ h0
    · exact hclean id
  have hv := view_of_not_dirty h.inv hnd
  rw [h.view id q hr (hc.written id q hr hq), file, h.hFile] at hv
  exact hv.symm

end CacheCmd

section runs
open CacheCmd

/-- Over every run of the cache no page is cached twice, a read returns the last bytes written or
those of the file, and does return them while no request fails, a successful flush brings them to
the file, and a failing write changes no other page, nor its own unless the failing request
changed it in the file. -/
theorem pageCache_coherent {hFile : FileName} {cacheSize threshold spillRatio : ℕ} {os : Os}
    (hps : 0 < ps) (hsize : 0 < cacheSize) {cmds : List (CacheCmd ps)}
    (hok : Along step Allowed cmds (start ps hFile cacheSize threshold spillRatio os))
    {w : World (CPageCache ps)} {last : Last ps}
    (hrun : runAll step cmds (start ps hFile cacheSize threshold spillRatio os) = (w, last)) :
    (w.obj.cache.data.map SCachePage.physId).Nodup ∧
    (∀ id p, InRange ps id → (CPageCache.read id).result w = .ok p →
      (∀ q, last id = some q → p = q) ∧
      (last id = none → pageAt ps (w.os.disk w.obj.hFile) id = some p)) ∧
    (w.os.Calm → ∀ id p, InRange ps id →
      (last id = some p ∨ last id = none ∧ pageAt ps (w.os.disk w.obj.hFile) id = some p) →
      (CPageCache.read id).result w = .ok p) ∧
    (CPageCache.flush.result w = .ok () → ∀ id q, InRange ps id → last id = some q →
      pageAt ps ((CPageCache.flush.after w).os.disk w.obj.hFile) id = some q) ∧
    (∀ id page e j p q, InRange ps id → InRange ps j →
      (CPageCache.write id page).result w = .error e → (CPageCache.read j).result w = .ok p →
      (CPageCache.read j).result ((CPageCache.write id page).after w) = .ok q →
      q = p ∨ j = id ∧ ¬w.os.Atomic ∧
        pageAt ps (((CPageCache.write id page).after w).os.disk w.obj.hFile) id = some q) := by
  have hc : Coherent w last := by simpa only [hrun] using coherent_run hps hsize hok
  refine ⟨hc.inv.nodup, fun id p hr hres => ?_, fun hcalm id p hr hlast => ?_,
    fun hres id q hr hq => hc.flush hres hr hq, fun id page e j p q hr hj herr hp hq => ?_⟩
  · have hv := view_of_read hc.inv hr hres
    refine ⟨fun q hq => ?_, fun hnone => ?_⟩
    · exact Option.some.inj (hv.symm.trans (hc.written id q hr hq))
    · exact (view_of_not_dirty hc.inv fun hd => hc.dirty id hd hnone).symm.trans hv
  · have hv : CPageCache.view w id = some p := by
      rcases hlast with hq | ⟨hnone, hp⟩
      · exact hc.written id p hr hq
      · exact (view_of_not_dirty hc.inv fun hd => hc.dirty id hd hnone).trans hp
    obtain ⟨hok', herr⟩ := Prog.wp_result.mp (CPageCache.read_spec hc.inv hr)
    rcases hres : (CPageCache.read id).result w with e | q
    · exact absurd ((herr e hres).2 hcalm).1 (by simp [hv])
    · rw [Option.some.inj (hv.symm.trans (hok' q hres).2)]
  · have hspec := Prog.wp_result.mp (CPageCache.write_spec hc.inv hr page)
    obtain ⟨h, -, -, hfind, hself⟩ := hspec.2 e herr
    have hp := view_of_read hc.inv hj hp
    have hq := view_of_read h.inv hj hq
    by_cases hji : j = id
    · subst hji
      by_cases hat : w.os.Atomic
      · exact Or.inl (Option.some.inj (hq.symm.trans (hself hat p hp)))
      · rw [CPageCache.view_of_not_mem (CPageCache.find_eq_none_iff.mp hfind), h.hFile] at hq
        exact Or.inr ⟨rfl, hat, hq⟩
    · exact Or.inl (Option.some.inj (hq.symm.trans (h.view j p hji hj hp)))

/-- A file of one empty page of four bytes, and no failing request. -/
def onePageFile : Os := { allocs := [], ios := [], disk := fun _ => [0, 0, 0, 0], trail := [] }

def page1234 : Page 4 := ⟨[1, 2, 3, 4], rfl⟩

theorem pageCache_coherent_write_flush :
    (CPageCache.read 0).result (runAll step [.write 0 page1234, .flush]
      (start 4 .objectsData 1 16 4 onePageFile)).1 = .ok page1234 := by
  have hok : Along step Allowed [.write 0 page1234, .flush]
      (start 4 .objectsData 1 16 4 onePageFile) := ⟨⟨by decide, by decide⟩, trivial, trivial⟩
  exact (pageCache_coherent (by decide) (by decide) hok rfl).2.2.1 ⟨rfl, rfl⟩ 0 _ (by decide)
    (Or.inl rfl)

/-- The write has succeeded and is the last one, but the cache is emptied before it is flushed. -/
theorem pageCache_empty_discards :
    let w := (start 4 .objectsData 1 16 4 onePageFile).1
    let w' := (CPageCache.write 0 page1234).after w
    (CPageCache.write 0 page1234).result w = .ok () ∧
      (CPageCache.read 0).result (CPageCache.empty.after w') = .ok ⟨[0, 0, 0, 0], rfl⟩ ∧
      (⟨[0, 0, 0, 0], rfl⟩ : Page 4) ≠ page1234 :=
  ⟨rfl, rfl, by decide⟩

end runs

end NtAdmin.Wmi.PageMgr
