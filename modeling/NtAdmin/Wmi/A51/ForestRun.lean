import NtAdmin.Wmi.A51.ForestAssert

/-! Runs of the class cache: its accounting holds where classes keep their superclasses. -/
namespace NtAdmin.Wmi.A51
open Lib Prog CForestCache Skeleton

/-- The calls of the cache. The timer calls `MakeRoom` too. -/
inductive CacheCall (Hash Obj : Type)
  | assertClass (nsp : ℕ) (pClass : WmiObject Obj) (wszClassName : Option String) (bClone : Bool)
    (nTime : ℕ) (bSystemClass : Bool)
  | invalidateClass (nsp : ℕ) (wszClassName : String)
  | getClassDef (nsp : ℕ) (wszClassName : String) (clone : Obj → Option Obj)
  | getClassDefByHash (key : ℕ × Hash) (clone : Obj → Option Obj)
  | getParent (nsp : ℕ) (wszClassName : String)
  | clearNamespace (nsp : ℕ)
  | clear
  | makeRoom (dwSize : ℕ)
  | flush
  | setMaxMemory (dwMaxMemory dwMaxAgeMs : ℕ)

variable {Hash Obj : Type}

namespace CForestCache

/-- The cache after `Initialize`. -/
def start (dwMaxMemory dwMaxAgeMs : ℕ) (ticks : List ℕ) (allocs : List Bool) :
    CForestCache Hash Obj where
  heap _ := none
  fresh := 0
  mostRecentlyUsed := none
  leastRecentlyUsed := none
  maxMemory := dwMaxMemory
  maxAgeMs := dwMaxAgeMs
  totalMemory := 0
  init := true
  map := []
  nextInvalidationIndex _ := 0
  currentTime := 1
  ticks := ticks
  allocs := allocs

/-- The chain is a doubly linked list of the records that have a definition, each once; the memory
in use is the sum of their sizes and within the limit. `MakeRoom` makes the room that it is asked
for, and neither it nor any other eviction changes the tree or the map. -/
structure Accounted (s : CForestCache Hash Obj) : Prop where
  chain : ∃ ns : List ℕ, ns.Nodup ∧
    DoublyLinked s.more s.less s.leastRecentlyUsed s.mostRecentlyUsed ns ∧
    (∀ a, a ∈ ns ↔ ∃ r, s.heap a = some r ∧ r.classDef ≠ none) ∧
    s.totalMemory = (ns.map s.sizeAt).sum
  room : s.totalMemory ≤ s.maxMemory
  makeRoom : ∀ dwSize, (dwSize ≤ s.maxMemory → s.totalMemory + dwSize < 2 ^ 32) →
    Runs (makeRoom dwSize) (fun b t => t.skeleton = s.skeleton ∧
      (b = true → t.totalMemory + dwSize ≤ t.maxMemory) ∧ (b = false → s.maxMemory < dwSize)) s
  evict : ∀ p r, s.heap p = some r → Runs (removeRecord p) (fun _ t => t.skeleton = s.skeleton ∧
    ∃ r', t.heap p = some r' ∧ r'.classDef = none ∧ r'.children = r.children) s

section keys
variable [DecidableEq Hash]

def perform (A51Hash : String → Hash) : CacheCall Hash Obj → CacheM Hash Obj PUnit
  | .assertClass nsp pClass wszClassName bClone nTime bSystemClass => do
    let _ ← assertClass A51Hash nsp pClass wszClassName bClone nTime bSystemClass
    pure ⟨⟩
  | .invalidateClass nsp wszClassName => do
    let _ ← invalidateClass A51Hash nsp wszClassName
    pure ⟨⟩
  | .getClassDef nsp wszClassName clone => do
    let _ ← getClassDef A51Hash nsp wszClassName clone
    pure ⟨⟩
  | .getClassDefByHash key clone => do
    let _ ← getClassDefByHash key clone
    pure ⟨⟩
  | .getParent nsp wszClassName => do
    let _ ← getParent A51Hash nsp wszClassName
    pure ⟨⟩
  | .clearNamespace nsp => clearNamespace nsp
  | .clear => clear
  | .makeRoom dwSize => do
    let _ ← makeRoom dwSize
    pure ⟨⟩
  | .flush => do
    let _ ← flush
    pure ⟨⟩
  | .setMaxMemory dwMaxMemory dwMaxAgeMs => do
    let _ ← setMaxMemory dwMaxMemory dwMaxAgeMs
    pure ⟨⟩

def performAll (A51Hash : String → Hash) : List (CacheCall Hash Obj) → CacheM Hash Obj PUnit
  | [] => pure ⟨⟩
  | call :: calls => do
    perform A51Hash call
    performAll A51Hash calls

/-- What a call must find: a class has its place in the tree for good, and no size wraps the sum. -/
def Meets (A51Hash : String → Hash) (s : CForestCache Hash Obj) : CacheCall Hash Obj → Prop
  | .assertClass nsp pClass wszClassName bClone _ _ =>
    Assertable A51Hash nsp pClass wszClassName bClone s
  | .makeRoom dwSize => dwSize ≤ s.maxMemory → s.totalMemory + dwSize < 2 ^ 32
  | _ => True

def MeetsAll (A51Hash : String → Hash) (s : CForestCache Hash Obj) :
    List (CacheCall Hash Obj) → Prop
  | [] => True
  | call :: calls => Meets A51Hash s call ∧ MeetsAll A51Hash ((perform A51Hash call).after s) calls

end keys

end CForestCache

variable {s t : CForestCache Hash Obj} {K : Skeleton Hash} {M : ℕ}

theorem Held.sound (h : ∃ K', Held K' M s ∧ K'.Tree ∧ K'.Single) : Sound s := by
  obtain ⟨K', h', hK, hone⟩ := h
  refine ⟨h'.lru, h'.init, h'.max.symm ▸ h'.room, ?_, ?_⟩
  · rwa [h'.skeleton]
  · rwa [h'.skeleton]

theorem Sound.held (h : Sound s) : Held s.skeleton s.maxMemory s :=
  ⟨h.lru, h.init, rfl, rfl, h.room⟩

theorem Sound.accounted (h : Sound s) : Accounted s := by
  obtain ⟨ns, hlru⟩ := h.lru
  refine ⟨⟨ns, hlru.chained.chain.nodup, hlru.chained.chain, fun a => ?_, hlru.total⟩, h.room,
    fun dwSize hwrap => ?_, fun p r hp => ?_⟩
  · constructor
    · intro ha
      obtain ⟨r, hr⟩ := hlru.chained.allocated a ha
      exact ⟨r, hr, (hlru.mem a r hr).mp ha⟩
    · rintro ⟨r, hr, hdef⟩
      exact (hlru.mem a r hr).mpr hdef
  · refine (runs_makeRoom_held h.held hwrap).mono fun b t ht => ?_
    obtain ⟨ht, -, htrue, hfalse⟩ := ht
    exact ⟨ht.skeleton, fun hb => ht.max.symm ▸ htrue hb, hfalse⟩
  · refine (runs_removeRecord_held h.held hp).mono fun _ t ht => ?_
    exact ⟨ht.1.skeleton, _, ht.2.1, rfl, rfl⟩

theorem sound_start (dwMaxMemory dwMaxAgeMs : ℕ) (ticks : List ℕ) (allocs : List Bool) :
    Sound (start dwMaxMemory dwMaxAgeMs ticks allocs : CForestCache Hash Obj) := by
  have hnone : ∀ a n, (start dwMaxMemory dwMaxAgeMs ticks allocs :
      CForestCache Hash Obj).skeleton.node a ≠ some n := fun a n h => nomatch h
  have hlru : Lru (start dwMaxMemory dwMaxAgeMs ticks allocs : CForestCache Hash Obj) [] := by
    refine ⟨⟨DoublyLinked.empty _ _, fun a ha => (List.not_mem_nil ha).elim,
      fun a r ha => (nomatch ha), fun a r ha => (nomatch ha)⟩, fun a r ha => (nomatch ha), rfl, ?_⟩
    exact Nat.two_pow_pos 32
  refine ⟨⟨[], hlru⟩, rfl, Nat.zero_le _, ?_, fun a n ha => (hnone a n ha).elim⟩
  constructor
  · exact List.nodup_nil
  · exact fun e he => (List.not_mem_nil he).elim
  · exact fun a n ha => (hnone a n ha).elim
  · exact fun a n ha => (hnone a n ha).elim
  · exact fun a n c ha => (hnone a n ha).elim
  · exact fun a n ha => (hnone a n ha).elim
  · exact fun a n q ha => (hnone a n ha).elim
  · exact ⟨fun _ => 0, fun a n q ha => (hnone a n ha).elim⟩

theorem not_runs_of_error {α : Type} {m : CacheM Hash Obj α} {e : CacheFault}
    {Q : α → CForestCache Hash Obj → Prop} (h : m.result s = .error e) : ¬Runs m Q s := by
  intro hrun
  exact (wp_result.mp hrun).2 e h

variable [DecidableEq Hash]

/-- A call keeps the cache sound and meets no freed record. -/
theorem runs_perform (A51Hash : String → Hash) (call : CacheCall Hash Obj) (h : Sound s)
    (hok : Meets A51Hash s call) : Runs (perform A51Hash call) (fun _ t => Sound t) s := by
  have hheld := h.held
  cases call with
  | assertClass nsp pClass wszClassName bClone nTime bSystemClass =>
    rw [Runs, perform, wp_bind]
    exact (runs_assertClass h.tree h.single hheld hok).mono fun _ t ht => Held.sound ht
  | invalidateClass nsp wszClassName =>
    rw [Runs, perform, wp_bind]
    exact (runs_invalidateClass h.tree h.single hheld).mono fun _ t ht => Held.sound ht
  | getClassDef nsp wszClassName clone =>
    rw [Runs, perform, wp_bind]
    exact (runs_getClassDef h.tree hheld).mono fun _ t ht => Held.sound ⟨_, ht, h.tree, h.single⟩
  | getClassDefByHash key clone =>
    rw [Runs, perform, wp_bind]
    exact (runs_getClassDefByHash h.tree hheld).mono fun _ t ht =>
      Held.sound ⟨_, ht, h.tree, h.single⟩
  | getParent nsp wszClassName =>
    rw [Runs, perform, wp_bind]
    exact (runs_getParent h.tree hheld).mono fun _ t ht => Held.sound ⟨_, ht, h.tree, h.single⟩
  | clearNamespace nsp =>
    exact (runs_clearNamespace h.tree h.single hheld).mono fun _ t ht => Held.sound ht
  | clear => exact (runs_clear h.tree h.single hheld).mono fun _ t ht => Held.sound ht
  | makeRoom dwSize =>
    rw [Runs, perform, wp_bind]
    exact (runs_makeRoom_held hheld hok).mono fun _ t ht => Held.sound ⟨_, ht.1, h.tree, h.single⟩
  | flush =>
    rw [Runs, perform, wp_bind]
    exact (runs_flush_held hheld).mono fun _ t ht => Held.sound ⟨_, ht.1, h.tree, h.single⟩
  | setMaxMemory dwMaxMemory dwMaxAgeMs =>
    rw [Runs, perform, wp_bind]
    exact (runs_setMaxMemory hheld).mono fun _ t ht => Held.sound ⟨_, ht, h.tree, h.single⟩

theorem runs_performAll (A51Hash : String → Hash) (calls : List (CacheCall Hash Obj)) (h : Sound s)
    (hok : MeetsAll A51Hash s calls) :
    Runs (performAll A51Hash calls) (fun _ t => Sound t) s := by
  induction calls generalizing s with
  | nil => exact h
  | cons call calls ih =>
    rw [Runs, performAll, wp_bind]
    refine wp_mono (wp_and (runs_perform A51Hash call h hok.1) (wp_run _ s)) (fun _ t ht => ?_)
      fun _ _ he => he.1
    obtain ⟨ht, -, hafter⟩ := ht
    exact ih ht (hafter ▸ hok.2)

/-- In a run whose calls meet the condition, no call meets a freed record or goes on for ever, and
the accounting is right in the end. -/
theorem performAll_accounted (A51Hash : String → Hash) (calls : List (CacheCall Hash Obj))
    (dwMaxMemory dwMaxAgeMs : ℕ) (ticks : List ℕ) (allocs : List Bool)
    (hok : MeetsAll A51Hash (start dwMaxMemory dwMaxAgeMs ticks allocs) calls) :
    Runs (performAll A51Hash calls) (fun _ t => Accounted t)
      (start dwMaxMemory dwMaxAgeMs ticks allocs) :=
  (runs_performAll A51Hash calls (sound_start _ _ _ _) hok).mono fun _ _ ht => ht.accounted

/-- A class without keys whose definition takes ten bytes. -/
def plainClass (name : String) (super : Option String) : WmiObject Unit where
  self := ()
  className := some name
  superclass := .ok super
  keyed := .ok false
  memory := .ok 10
  clone := .ok (some ())

/-- A class enters the cache under the root, is looked up and leaves again. -/
theorem performAll_accounted_run : Runs
    (performAll id [.assertClass 0 (plainClass "A" none) none false 0 false,
      .getClassDef 0 "A" some, .invalidateClass 0 "A"])
    (fun _ t => Accounted t) (start 1000 1000 [] [] : CForestCache String Unit) := by
  refine performAll_accounted id _ 1000 1000 [] [] ⟨?_, trivial, trivial, trivial⟩
  intro p o hpo
  obtain ⟨rfl, rfl⟩ : p = 0 ∧ o = some 1 := by
    cases hpo
    exact ⟨rfl, rfl⟩
  refine ⟨fun r hr => ⟨fun q hq => ?_, fun _ q hq => ⟨fun hsub => ?_, nofun⟩⟩,
    fun r keyed dwSize hr _ hm _ => ⟨?_, nofun⟩⟩
  · cases hr
    cases hq
  · -- the root has no parent
    cases hq
    rcases Relation.ReflTransGen.cases_head hsub with heq | ⟨b, ⟨n, hn, hb⟩, -⟩
    · cases heq
    · cases hn
      cases hb
  · cases hr
    cases hm
    decide

/-- `C` is a child of `A` first and of `B` then. `InvalidateClass` of `A` releases its record, which
that of `B` then uses. -/
def reparenting : List (CacheCall String Unit) :=
  [.assertClass 0 (plainClass "A" none) none false 0 false,
    .assertClass 0 (plainClass "B" none) none false 0 false,
    .assertClass 0 (plainClass "C" (some "A")) none false 0 false,
    .assertClass 0 (plainClass "C" (some "B")) none false 0 false,
    .invalidateClass 0 "A", .invalidateClass 0 "B"]

theorem reparenting_freed : (performAll id reparenting).result
    (start 1000 1000 [] [] : CForestCache String Unit) = .error .freed := by
  decide +kernel

theorem not_performAll_accounted : ¬∀ calls : List (CacheCall String Unit),
    Runs (performAll id calls) (fun _ t => Accounted t) (start 1000 1000 [] []) :=
  not_forall_of_exists_not ⟨reparenting, not_runs_of_error reparenting_freed⟩

end NtAdmin.Wmi.A51
