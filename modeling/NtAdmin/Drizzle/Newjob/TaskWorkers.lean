import NtAdmin.Drizzle.Newjob.TaskLists

/-! The workers of the groups. -/
namespace NtAdmin.Drizzle.Newjob

/-- A worker between taking an item and marking itself free. -/
def isBusy (T : Option Worker) : Bool := T.any (·.phase != .idle)

variable {Sid : Type}

/-- The slots of a group hold its workers, of which those at work are counted. -/
structure WorkGroup.Staffed (G : WorkGroup Sid) (worker : ℕ → Option Worker) (g : ℕ) : Prop where
  size : G.threadId.length = maxWorkgroupThreads
  threads : G.threads ≤ maxWorkgroupThreads
  nodup : G.slots.Nodup
  slots : ∀ t, t ∈ G.slots ↔ ∃ T, worker t = some T ∧ T.group = g
  busy : G.busyThreads = G.slots.countP fun t => isBusy (worker t)

/-- Every worker has its group, and every running item its worker. -/
structure Workers (workGroup : ℕ → Option (WorkGroup Sid)) (worker : ℕ → Option Worker)
    (place : ℕ → Place) : Prop where
  group : ∀ g G, workGroup g = some G → G.Staffed worker g
  exist : ∀ t T, worker t = some T → workGroup T.group ≠ none
  current : ∀ t T i, worker t = some T → T.current = some i →
    place i = .running T.group ∧ T.phase = .dispatching
  running : ∀ i g, place i = .running g → ∃ t T, worker t = some T ∧ T.current = some i
  once : ∀ t t' T T' i, worker t = some T → worker t' = some T' → T.current = some i →
    T'.current = some i → t = t'

section workers
variable {workGroup : ℕ → Option (WorkGroup Sid)} {worker : ℕ → Option Worker}
  {place place' : ℕ → Place} {i g t : ℕ} {G G' : WorkGroup Sid} {T T' : Worker}

theorem WorkGroup.Staffed.length_slots (h : G.Staffed worker g) : G.slots.length = G.threads := by
  unfold WorkGroup.slots
  rw [List.length_take, h.size]
  exact Nat.min_eq_left h.threads

/-- No more workers are busy than there are. -/
theorem WorkGroup.Staffed.busy_le (h : G.Staffed worker g) : G.busyThreads ≤ G.threads := by
  have := List.countP_le_length (p := fun t => isBusy (worker t)) (l := G.slots)
  rw [h.length_slots] at this
  rw [h.busy]
  exact Int.ofNat_le.mpr this

theorem WorkGroup.Staffed.congr (h : G.Staffed worker g) (hid : G'.threadId = G.threadId)
    (hthreads : G'.threads = G.threads) (hbusy : G'.busyThreads = G.busyThreads) :
    G'.Staffed worker g := by
  have hslots : G'.slots = G.slots := by unfold WorkGroup.slots; rw [hid, hthreads]
  exact ⟨hid ▸ h.size, hthreads ▸ h.threads, hslots ▸ h.nodup, hslots ▸ h.slots,
    by rw [hbusy, hslots]; exact h.busy⟩

theorem Workers.congr_place (h : Workers workGroup worker place)
    (hplace : ∀ i g, place i = .running g ↔ place' i = .running g) :
    Workers workGroup worker place' where
  group := h.group
  exist := h.exist
  current t T i ht hi := ⟨(hplace i _).mp (h.current t T i ht hi).1, (h.current t T i ht hi).2⟩
  running i g hi := h.running i g ((hplace i g).mpr hi)
  once := h.once

theorem update_some_ne_none {α : Type} {f : ℕ → Option α} {a : ℕ} {x : α} {n : ℕ}
    (h : f n ≠ none) : Function.update f a (some x) n ≠ none := by
  by_cases heq : n = a
  · subst heq
    rw [Function.update_self]
    exact Option.some_ne_none x
  · rwa [Function.update_of_ne heq]

/-- Another group takes the place of the group, with the same workers. -/
theorem Workers.congr_group (h : Workers workGroup worker place) (hG' : G'.Staffed worker g) :
    Workers (Function.update workGroup g (some G')) worker place where
  group g' G'' hG'' := by
    by_cases heq : g' = g
    · subst heq
      rw [Function.update_self] at hG''
      exact Option.some.inj hG'' ▸ hG'
    · rw [Function.update_of_ne heq] at hG''
      exact h.group g' G'' hG''
  exist t T ht := update_some_ne_none (h.exist t T ht)
  current := h.current
  running := h.running
  once := h.once

/-- A group that is made has no workers. -/
theorem Workers.new_group (h : Workers workGroup worker place) (hG : workGroup g = none)
    (sid : Sid) : Workers (Function.update workGroup g (some (.new sid))) worker place := by
  refine h.congr_group ⟨List.length_replicate, Nat.zero_le _, List.nodup_nil, fun t => ?_, rfl⟩
  refine ⟨fun ht => absurd ht List.not_mem_nil, ?_⟩
  rintro ⟨T, ht, rfl⟩
  exact absurd hG (h.exist t T ht)

theorem countP_of_mem {l : List ℕ} (ht : t ∈ l) (p : ℕ → Bool) :
    l.countP p = (l.erase t).countP p + if p t then 1 else 0 := by
  rw [(List.perm_cons_erase ht).countP_eq, List.countP_cons]

/-- What is said of `t` does not count among the others. -/
theorem countP_erase_congr {l : List ℕ} (hl : l.Nodup) {p q : ℕ → Bool}
    (hpq : ∀ x, x ≠ t → p x = q x) : (l.erase t).countP p = (l.erase t).countP q := by
  refine List.countP_congr fun x hx => ?_
  rw [hpq x (hl.mem_erase_iff.mp hx).1]

/-- A worker of the group goes on. -/
theorem WorkGroup.Staffed.update_worker (h : G.Staffed worker g) (ht : worker t = some T)
    (hT : T.group = g) (hT' : T'.group = g) (hid : G'.threadId = G.threadId)
    (hthreads : G'.threads = G.threads)
    (hbusy : G'.busyThreads + (if isBusy (some T) then 1 else 0) =
      G.busyThreads + if isBusy (some T') then 1 else 0) :
    G'.Staffed (Function.update worker t (some T')) g := by
  have hslots : G'.slots = G.slots := by unfold WorkGroup.slots; rw [hid, hthreads]
  have hmem : t ∈ G.slots := (h.slots t).mpr ⟨T, ht, hT⟩
  refine ⟨hid ▸ h.size, hthreads ▸ h.threads, hslots ▸ h.nodup, fun t' => ?_, ?_⟩
  · rw [hslots]
    by_cases heq : t' = t
    · subst heq
      rw [Function.update_self]
      exact ⟨fun _ => ⟨T', rfl, hT'⟩, fun _ => hmem⟩
    · rw [Function.update_of_ne heq]
      exact h.slots t'
  · have hbefore := countP_of_mem hmem fun t => isBusy (worker t)
    have hafter := countP_of_mem hmem fun t' => isBusy (Function.update worker t (some T') t')
    have hothers : (G.slots.erase t).countP (fun t' => isBusy (Function.update worker t (some T') t')) =
        (G.slots.erase t).countP fun t => isBusy (worker t) :=
      countP_erase_congr h.nodup fun x hx => by rw [Function.update_of_ne hx]
    simp only [Function.update_self, ht] at hbefore hafter
    have hcount := h.busy
    rw [hslots]
    split_ifs at hbusy hbefore hafter <;> omega

/-- A worker of another group comes, goes on or goes. -/
theorem WorkGroup.Staffed.other (h : G.Staffed worker g) {x : Option Worker}
    (hold : ∀ T, worker t = some T → T.group ≠ g) (hnew : ∀ T, x = some T → T.group ≠ g) :
    G.Staffed (Function.update worker t x) g := by
  have hmem : t ∉ G.slots := fun ht => by
    obtain ⟨T, ht, hT⟩ := (h.slots t).mp ht
    exact hold T ht hT
  refine ⟨h.size, h.threads, h.nodup, fun t' => ?_, ?_⟩
  · by_cases heq : t' = t
    · subst heq
      rw [Function.update_self]
      refine ⟨fun ht => absurd ht hmem, ?_⟩
      rintro ⟨T, hT, hg⟩
      exact absurd hg (hnew T hT)
    · rw [Function.update_of_ne heq]
      exact h.slots t'
  · rw [h.busy]
    congr 1
    refine List.countP_congr fun t' ht' => ?_
    rw [Function.update_of_ne fun heq : t' = t => hmem (heq ▸ ht')]

/-- A worker goes on, and what it works at. -/
theorem Workers.update_worker (h : Workers workGroup worker place) (ht : worker t = some T)
    (hT' : T'.group = T.group) (hG' : G'.Staffed (Function.update worker t (some T')) T.group)
    (hcurrent : ∀ i, T'.current = some i → place' i = .running T.group ∧ T'.phase = .dispatching)
    (hothers : ∀ t' T'' i, t' ≠ t → worker t' = some T'' → T''.current = some i →
      place' i = place i ∧ T'.current ≠ some i)
    (hrunning : ∀ i g, place' i = .running g →
      place i = .running g ∧ T.current ≠ some i ∨ T'.current = some i) :
    Workers (Function.update workGroup T.group (some G')) (Function.update worker t (some T'))
      place' where
  group g G'' hG'' := by
    by_cases heq : g = T.group
    · subst heq
      rw [Function.update_self] at hG''
      exact Option.some.inj hG'' ▸ hG'
    · rw [Function.update_of_ne heq] at hG''
      refine (h.group g G'' hG'').other (fun T'' ht'' hg => ?_) fun T'' hT'' hg => ?_
      · obtain rfl := Option.some.inj (ht.symm.trans ht'')
        exact heq hg.symm
      · obtain rfl := Option.some.inj hT''
        exact heq (hg.symm.trans hT')
  exist t' T'' ht' := by
    by_cases heq : t' = t
    · subst heq
      rw [Function.update_self] at ht'
      obtain rfl := Option.some.inj ht'
      exact update_some_ne_none (hT' ▸ h.exist t' T ht)
    · rw [Function.update_of_ne heq] at ht'
      exact update_some_ne_none (h.exist t' T'' ht')
  current t' T'' i ht' hi := by
    by_cases heq : t' = t
    · subst heq
      rw [Function.update_self] at ht'
      obtain rfl := Option.some.inj ht'
      exact ⟨hT' ▸ (hcurrent i hi).1, (hcurrent i hi).2⟩
    · rw [Function.update_of_ne heq] at ht'
      obtain ⟨hplace, hphase⟩ := h.current t' T'' i ht' hi
      exact ⟨(hothers t' T'' i heq ht' hi).1.trans hplace, hphase⟩
  running i g hi := by
    rcases hrunning i g hi with ⟨hi, hne⟩ | hi
    · obtain ⟨t', T'', ht', hi'⟩ := h.running i g hi
      have heq : t' ≠ t := by
        rintro rfl
        obtain rfl := Option.some.inj (ht.symm.trans ht')
        exact hne hi'
      exact ⟨t', T'', by rw [Function.update_of_ne heq]; exact ht', hi'⟩
    · exact ⟨t, T', Function.update_self t _ worker, hi⟩
  once t₁ t₂ T₁ T₂ i h₁ h₂ hi₁ hi₂ := by
    by_cases heq₁ : t₁ = t
    · by_cases heq₂ : t₂ = t
      · exact heq₁.trans heq₂.symm
      · subst heq₁
        rw [Function.update_self] at h₁
        rw [Function.update_of_ne heq₂] at h₂
        exact absurd (Option.some.inj h₁ ▸ hi₁) (hothers t₂ T₂ i heq₂ h₂ hi₂).2
    · by_cases heq₂ : t₂ = t
      · subst heq₂
        rw [Function.update_self] at h₂
        rw [Function.update_of_ne heq₁] at h₁
        exact absurd (Option.some.inj h₂ ▸ hi₂) (hothers t₁ T₁ i heq₁ h₁ hi₁).2
      · rw [Function.update_of_ne heq₁] at h₁
        rw [Function.update_of_ne heq₂] at h₂
        exact h.once t₁ t₂ T₁ T₂ i h₁ h₂ hi₁ hi₂

theorem slots_set {l : List ℕ} {n : ℕ} (hn : n < l.length) (t : ℕ) :
    (l.set n t).take (n + 1) = l.take n ++ [t] := by
  rw [List.take_succ_eq_append_getElem (by rw [List.length_set]; exact hn), List.getElem_set_self,
    List.take_set_of_le (Nat.le_refl n)]

/-- A group that is not full gets a worker. -/
theorem WorkGroup.Staffed.add_worker (h : G.Staffed worker g) (ht : worker t = none)
    (hfull : G.threads < maxWorkgroupThreads) :
    WorkGroup.Staffed { G with threadId := G.threadId.set G.threads t, threads := G.threads + 1 }
      (Function.update worker t (some ⟨g, .idle, none⟩)) g := by
  have hslots : WorkGroup.slots { G with
      threadId := G.threadId.set G.threads t, threads := G.threads + 1 } = G.slots ++ [t] :=
    slots_set (h.size ▸ hfull) t
  have hmem : t ∉ G.slots := fun hmem => by
    obtain ⟨T, hT, -⟩ := (h.slots t).mp hmem
    exact absurd (ht.symm.trans hT) (Option.some_ne_none T).symm
  refine ⟨by rw [List.length_set]; exact h.size, hfull, ?_, fun t' => ?_, ?_⟩
  · rw [hslots]
    exact h.nodup.append (List.nodup_singleton t) (by simpa using hmem)
  · rw [hslots, List.mem_append, List.mem_singleton]
    by_cases heq : t' = t
    · subst heq
      rw [Function.update_self]
      exact ⟨fun _ => ⟨_, rfl, rfl⟩, fun _ => Or.inr rfl⟩
    · rw [Function.update_of_ne heq, ← h.slots t']
      exact ⟨fun hm => hm.resolve_right heq, Or.inl⟩
  · rw [hslots, List.countP_append]
    show G.busyThreads = _
    rw [h.busy]
    have hothers : G.slots.countP (fun t' =>
        isBusy (Function.update worker t (some ⟨g, .idle, none⟩) t')) =
        G.slots.countP fun t => isBusy (worker t) := by
      refine List.countP_congr fun t' ht' => ?_
      rw [Function.update_of_ne fun heq : t' = t => hmem (heq ▸ ht')]
    rw [hothers]
    simp [isBusy]

theorem Workers.add_worker (h : Workers workGroup worker place) (hG : workGroup g = some G)
    (ht : worker t = none) (hfull : G.threads < maxWorkgroupThreads) :
    Workers
      (Function.update workGroup g (some { G with
        threadId := G.threadId.set G.threads t, threads := G.threads + 1 }))
      (Function.update worker t (some ⟨g, .idle, none⟩)) place := by
  have hold : ∀ {t' T}, t' ≠ t → Function.update worker t (some ⟨g, .idle, none⟩) t' = some T →
      worker t' = some T := fun hne ht' => by rwa [Function.update_of_ne hne] at ht'
  have hnew : ∀ {t' T}, worker t' = some T → t' ≠ t := by
    rintro t' T ht' rfl
    exact absurd (ht.symm.trans ht') (Option.some_ne_none T).symm
  -- the worker has no item
  have hidle : ∀ {t' T i}, Function.update worker t (some ⟨g, .idle, none⟩) t' = some T →
      T.current = some i → t' ≠ t := by
    rintro t' T i ht' hi rfl
    rw [Function.update_self] at ht'
    obtain rfl := Option.some.inj ht'
    exact absurd hi (Option.some_ne_none i).symm
  refine ⟨fun g' G' hG' => ?_, fun t' T ht' => ?_, fun t' T i ht' hi => ?_, fun i g' hi => ?_,
    fun t₁ t₂ T₁ T₂ i h₁ h₂ hi₁ hi₂ => ?_⟩
  · by_cases heq : g' = g
    · subst heq
      rw [Function.update_self] at hG'
      exact Option.some.inj hG' ▸ (h.group _ G hG).add_worker ht hfull
    · rw [Function.update_of_ne heq] at hG'
      refine (h.group g' G' hG').other (fun T hT => absurd (ht.symm.trans hT) ?_) fun T hT hg => ?_
      · exact (Option.some_ne_none T).symm
      · obtain rfl := Option.some.inj hT
        exact heq hg.symm
  · by_cases heq : t' = t
    · subst heq
      rw [Function.update_self] at ht'
      obtain rfl := Option.some.inj ht'
      exact update_some_ne_none (hG ▸ Option.some_ne_none G)
    · exact update_some_ne_none (h.exist t' T (hold heq ht'))
  · exact h.current t' T i (hold (hidle ht' hi) ht') hi
  · obtain ⟨t', T, ht', hi'⟩ := h.running i g' hi
    exact ⟨t', T, by rw [Function.update_of_ne (hnew ht')]; exact ht', hi'⟩
  · exact h.once t₁ t₂ T₁ T₂ i (hold (hidle h₁ hi₁) h₁) (hold (hidle h₂ hi₂) h₂) hi₁ hi₂

theorem length_collapse {l : List ℕ} {threads index : ℕ} (hi : index < threads)
    (hl : threads ≤ l.length) : (collapse threads index l).length = l.length := by
  unfold collapse
  rw [List.length_set, List.length_append, List.length_append, List.length_take, List.length_take,
    List.length_drop, List.length_drop]
  omega

/-- The slots that are left are those of the other workers. -/
theorem take_collapse {l : List ℕ} {threads index : ℕ} (hi : index < threads)
    (hl : threads ≤ l.length) :
    (collapse threads index l).take (threads - 1) = (l.take threads).eraseIdx index := by
  have hlen : (l.take index ++ (l.drop (index + 1)).take (threads - index - 1)).length =
      threads - 1 := by
    rw [List.length_append, List.length_take, List.length_take, List.length_drop]
    omega
  unfold collapse
  rw [List.take_set_of_le (Nat.le_refl _), List.take_append_of_le_length (Nat.le_of_eq hlen.symm),
    List.take_of_length_le (Nat.le_of_eq hlen), List.eraseIdx_eq_take_drop_succ, List.take_take,
    Nat.min_eq_left (Nat.le_of_lt hi), List.drop_take]
  congr 2

/-- A group that has other workers lets an idle one go. -/
theorem WorkGroup.Staffed.remove_worker (h : G.Staffed worker g) (ht : worker t = some T)
    (hT : T.group = g) (hidle : T.phase = .idle) :
    WorkGroup.Staffed { G with
      threadId := collapse G.threads (G.slots.idxOf t) G.threadId, threads := G.threads - 1 }
      (Function.update worker t none) g := by
  have hmem : t ∈ G.slots := (h.slots t).mpr ⟨T, ht, hT⟩
  have hi : G.slots.idxOf t < G.threads := h.length_slots ▸ List.idxOf_lt_length_of_mem hmem
  have hl : G.threads ≤ G.threadId.length := h.size ▸ h.threads
  have hslots : WorkGroup.slots { G with
      threadId := collapse G.threads (G.slots.idxOf t) G.threadId, threads := G.threads - 1 } =
      G.slots.erase t :=
    (take_collapse hi hl).trans (List.erase_eq_eraseIdx_of_idxOf rfl).symm
  refine ⟨(length_collapse hi hl).trans h.size, Nat.le_trans (Nat.sub_le _ _) h.threads, ?_,
    fun t' => ?_, ?_⟩
  · rw [hslots]
    exact h.nodup.erase t
  · rw [hslots, h.nodup.mem_erase_iff]
    by_cases heq : t' = t
    · subst heq
      rw [Function.update_self]
      exact ⟨fun hne => absurd rfl hne.1, fun ⟨_, hT, _⟩ => absurd hT (Option.some_ne_none _).symm⟩
    · rw [Function.update_of_ne heq, ← h.slots t']
      exact ⟨fun hm => hm.2, fun hm => ⟨heq, hm⟩⟩
  · rw [hslots]
    show G.busyThreads = _
    rw [h.busy, countP_of_mem hmem]
    have hothers : (G.slots.erase t).countP (fun t' => isBusy (Function.update worker t none t')) =
        (G.slots.erase t).countP fun t => isBusy (worker t) :=
      countP_erase_congr h.nodup fun x hx => by rw [Function.update_of_ne hx]
    rw [hothers]
    simp [isBusy, ht, hidle]

section gone

/-- What remains true of the others when an idle worker has gone. -/
theorem Workers.remove_idle (h : Workers workGroup worker place) (ht : worker t = some T)
    (hidle : T.phase = .idle) {workGroup' : ℕ → Option (WorkGroup Sid)}
    (hgroup : ∀ g G, workGroup' g = some G → G.Staffed (Function.update worker t none) g)
    (hexist : ∀ t' T', t' ≠ t → worker t' = some T' → workGroup' T'.group ≠ none) :
    Workers workGroup' (Function.update worker t none) place := by
  have hold : ∀ {t' T'}, Function.update worker t none t' = some T' → t' ≠ t ∧ worker t' = some T' := by
    intro t' T' ht'
    by_cases heq : t' = t
    · subst heq
      rw [Function.update_self] at ht'
      exact absurd ht' (Option.some_ne_none _).symm
    · rw [Function.update_of_ne heq] at ht'
      exact ⟨heq, ht'⟩
  refine ⟨hgroup, fun t' T' ht' => ?_, fun t' T' i ht' hi => ?_, fun i g hi => ?_,
    fun t₁ t₂ T₁ T₂ i h₁ h₂ hi₁ hi₂ => ?_⟩
  · exact hexist t' T' (hold ht').1 (hold ht').2
  · exact h.current t' T' i (hold ht').2 hi
  · obtain ⟨t', T', ht', hi'⟩ := h.running i g hi
    have heq : t' ≠ t := by
      rintro rfl
      obtain rfl := Option.some.inj (ht.symm.trans ht')
      exact absurd (hidle.symm.trans (h.current t' T i ht hi').2) (by decide)
    exact ⟨t', T', by rw [Function.update_of_ne heq]; exact ht', hi'⟩
  · exact h.once t₁ t₂ T₁ T₂ i (hold h₁).2 (hold h₂).2 hi₁ hi₂

theorem Workers.remove_worker (h : Workers workGroup worker place)
    (ht : worker t = some T) (hG : workGroup T.group = some G) (hidle : T.phase = .idle) :
    Workers
      (Function.update workGroup T.group (some { G with
        threadId := collapse G.threads (G.slots.idxOf t) G.threadId, threads := G.threads - 1 }))
      (Function.update worker t none) place := by
  refine h.remove_idle ht hidle (fun g G' hG' => ?_) fun t' T' _ ht' =>
    update_some_ne_none (h.exist t' T' ht')
  by_cases heq : g = T.group
  · subst heq
    rw [Function.update_self] at hG'
    exact Option.some.inj hG' ▸ (h.group _ G hG).remove_worker ht rfl hidle
  · rw [Function.update_of_ne heq] at hG'
    refine (h.group g G' hG').other (fun T' ht' hg => ?_) fun T' hT' => ?_
    · obtain rfl := Option.some.inj (ht.symm.trans ht')
      exact heq hg.symm
    · exact absurd hT' (Option.some_ne_none _).symm

/-- The last worker of a group is the one worker there. -/
theorem WorkGroup.Staffed.last (h : G.Staffed worker g) (hone : G.threads = 1)
    (ht : worker t = some T) (hT : T.group = g) {t' : ℕ} {T' : Worker} (ht' : worker t' = some T')
    (hT' : T'.group = g) : t' = t := by
  have hlen := h.length_slots
  rw [hone] at hlen
  obtain ⟨x, hx⟩ := List.length_eq_one_iff.mp hlen
  have hmem : t ∈ G.slots := (h.slots t).mpr ⟨T, ht, hT⟩
  have hmem' : t' ∈ G.slots := (h.slots t').mpr ⟨T', ht', hT'⟩
  rw [hx] at hmem hmem'
  exact (List.mem_singleton.mp hmem').trans (List.mem_singleton.mp hmem).symm

/-- Nothing runs in a group of which the last worker is idle. -/
theorem Workers.none_running (h : Workers workGroup worker place) (ht : worker t = some T)
    (hG : workGroup T.group = some G) (hone : G.threads = 1) (hidle : T.phase = .idle) (i : ℕ) :
    place i ≠ .running T.group := by
  intro hi
  obtain ⟨t', T', ht', hcurrent⟩ := h.running i _ hi
  obtain ⟨hplace, hphase⟩ := h.current t' T' i ht' hcurrent
  have hg : T'.group = T.group := (Place.running.inj (hi.symm.trans hplace)).symm
  obtain rfl := (h.group _ G hG).last hone ht rfl ht' hg
  obtain rfl := Option.some.inj (ht.symm.trans ht')
  exact absurd (hidle.symm.trans hphase) (by decide)

theorem Workers.delete_group (h : Workers workGroup worker place) (ht : worker t = some T)
    (hG : workGroup T.group = some G) (hone : G.threads = 1) (hidle : T.phase = .idle) :
    Workers (Function.update workGroup T.group none) (Function.update worker t none) place := by
  refine h.remove_idle ht hidle (fun g G' hG' => ?_) fun t' T' hne ht' => ?_
  · by_cases heq : g = T.group
    · subst heq
      rw [Function.update_self] at hG'
      exact absurd hG' (Option.some_ne_none _).symm
    · rw [Function.update_of_ne heq] at hG'
      refine (h.group g G' hG').other (fun T' ht' hg => ?_) fun T' hT' => ?_
      · obtain rfl := Option.some.inj (ht.symm.trans ht')
        exact heq hg.symm
      · exact absurd hT' (Option.some_ne_none _).symm
  · have hg : T'.group ≠ T.group := fun hg => hne ((h.group _ G hG).last hone ht rfl ht' hg)
    rw [Function.update_of_ne hg]
    exact h.exist t' T' ht'

end gone

end workers

end NtAdmin.Drizzle.Newjob
