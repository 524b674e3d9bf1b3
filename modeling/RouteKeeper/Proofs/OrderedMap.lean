import Mathlib.Data.List.Induction
import Mathlib.Data.List.Nodup
import Mathlib.Data.List.Perm.Basic
import RouteKeeper.OrderedMap

/-!
# Finite maps as partial functions

A map is determined by its lookups. Every operation is described by what it does to lookups, and a
walk is described as a series of single changes, so that an invariant of the walk is proved for one
change and carried along the series.

## Main definitions

* `OrderedMap.Rel` — maps with the same keys and related values.

## Main statements

* `get?_ext` — maps with the same lookups are equal.
* `get?_put`, `get?_filter`, `get?_map` — one equation for each operation.
* `sweep_eq_foldl` — a walk is a series of single changes.
* `sweep_rel` — two walks side by side.
* `get?_foldl_insert`, `get?_ofList` — of several bindings for one key, the last counts.
* `Rel.mapWithKey_eq`, `Rel.put`, `Rel.modify`, `Rel.filter` — what is related stays related, and
  what does not tell related values apart does not tell related maps apart.
-/
namespace RouteKeeper.OrderedMap

variable {κ ν μ σ : Type} [KeyOrder κ]

theorem nodup_keys (m : OrderedMap κ ν) : m.keys.Nodup := by
  refine m.sorted.imp ?_
  intro a b hab heq
  rw [heq, KeyOrder.irrefl] at hab
  exact Bool.noConfusion hab

theorem nodup_entries (m : OrderedMap κ ν) : m.entries.Nodup := m.nodup_keys.of_map

@[simp] theorem values_map (m : OrderedMap κ ν) (f : ν → μ) :
    (m.map f).values = m.values.map f := by
  simp [values, map, mapWithKey]

section Lookup

variable [DecidableEq κ]

theorem get?_eq_some_iff {m : OrderedMap κ ν} {k : κ} {v : ν} :
    m.get? k = some v ↔ (k, v) ∈ m.entries := by
  have hnodup := m.nodup_keys
  simp only [get?, keys] at *
  generalize m.entries = l at *
  induction l with
  | nil => simp
  | cons e r ih =>
    obtain ⟨a, b⟩ := e
    rw [List.map_cons, List.nodup_cons] at hnodup
    by_cases ha : a = k
    · subst ha
      have hrest : (a, v) ∉ r := fun h => hnodup.1 (List.mem_map.2 ⟨_, h, rfl⟩)
      simp [hrest, eq_comm]
    · have hne : k ≠ a := Ne.symm ha
      simpa [List.find?_cons, ha, hne] using ih hnodup.2

theorem mem_keys_iff {m : OrderedMap κ ν} {k : κ} : k ∈ m.keys ↔ ∃ v, m.get? k = some v := by
  simp [keys, get?_eq_some_iff]

theorem mem_values_iff {m : OrderedMap κ ν} {v : ν} : v ∈ m.values ↔ ∃ k, m.get? k = some v := by
  simp [values, get?_eq_some_iff]

/-- What holds of all lookups holds of all entries, so that it can be decided. -/
theorem forall_get?_iff {m : OrderedMap κ ν} {P : κ → ν → Prop} :
    (∀ k v, m.get? k = some v → P k v) ↔ ∀ e ∈ m.entries, P e.1 e.2 := by
  simp only [get?_eq_some_iff]
  exact ⟨fun h e he => h e.1 e.2 he, fun h k v hkv => h (k, v) hkv⟩

/-- A map is determined by its lookups. -/
theorem get?_ext {m n : OrderedMap κ ν} (h : ∀ k, m.get? k = n.get? k) : m = n := by
  have hmem : ∀ e, e ∈ m.entries ↔ e ∈ n.entries := by
    intro e
    rw [← get?_eq_some_iff (k := e.1) (v := e.2), h, get?_eq_some_iff]
  have hperm : m.entries.Perm n.entries :=
    (List.perm_ext_iff_of_nodup m.nodup_entries n.nodup_entries).2 hmem
  have hm := List.pairwise_map.1 m.sorted
  have hn := List.pairwise_map.1 n.sorted
  refine ext (hperm.eq_of_pairwise ?_ hm hn)
  intro a b _ _ hab hba
  have := KeyOrder.trans hab hba
  rw [KeyOrder.irrefl] at this
  exact Bool.noConfusion this

theorem isEmpty_iff {m : OrderedMap κ ν} : m.isEmpty = true ↔ ∀ k, m.get? k = none := by
  rw [isEmpty, List.isEmpty_iff]
  constructor
  · intro h k
    simp [get?, h]
  · intro h
    refine List.eq_nil_iff_forall_not_mem.2 fun e he => ?_
    have := get?_eq_some_iff.2 he
    simp [h] at this

/-! ## Lookups after changes -/

theorem get?_insert (m : OrderedMap κ ν) (k a : κ) (v : ν) :
    (m.insert k v).get? a = if a = k then some v else m.get? a := by
  split
  case isTrue h => rw [h, get?_insert_self]
  case isFalse h => exact m.get?_insert_of_ne v h

theorem get?_erase (m : OrderedMap κ ν) (k a : κ) :
    (m.erase k).get? a = if a = k then none else m.get? a := by
  split
  case isTrue h => rw [h, get?_erase_self]
  case isFalse h => exact m.get?_erase_of_ne h

theorem get?_modify (m : OrderedMap κ ν) (k a : κ) (f : ν → ν) :
    (m.modify k f).get? a = if a = k then (m.get? a).map f else m.get? a := by
  split
  case isTrue h => rw [h, get?_modify_self]
  case isFalse h => exact m.get?_modify_of_ne f h

@[simp] theorem get?_map (m : OrderedMap κ ν) (f : ν → μ) (k : κ) :
    (m.map f).get? k = (m.get? k).map f := get?_mapWithKey m _ k

theorem get?_filter (m : OrderedMap κ ν) (p : κ → ν → Bool) (k : κ) :
    (m.filter p).get? k = (m.get? k).filter (p k) := by
  ext v
  rw [get?_eq_some_iff, Option.filter_eq_some_iff, get?_eq_some_iff]
  simp [filter, List.mem_filter]

/-- Bind a key to a value, or forget it. -/
def put (m : OrderedMap κ ν) (k : κ) : Option ν → OrderedMap κ ν
  | some v => m.insert k v
  | none => m.erase k

theorem get?_put (m : OrderedMap κ ν) (k a : κ) (o : Option ν) :
    (m.put k o).get? a = if a = k then o else m.get? a := by
  cases o with
  | some v => exact m.get?_insert k a v
  | none => exact m.get?_erase k a

@[simp] theorem get?_put_self (m : OrderedMap κ ν) (k : κ) (o : Option ν) :
    (m.put k o).get? k = o := by
  rw [get?_put, if_pos rfl]

theorem put_put (m : OrderedMap κ ν) (k : κ) (o o' : Option ν) :
    (m.put k o).put k o' = m.put k o' := by
  refine get?_ext fun a => ?_
  by_cases h : a = k <;> simp [get?_put, h]

theorem put_get? (m : OrderedMap κ ν) (k : κ) : m.put k (m.get? k) = m := by
  refine get?_ext fun a => ?_
  by_cases h : a = k <;> simp [get?_put, h]

/-- To change the value of a key is to bind the key anew. -/
theorem modify_of_get? {m : OrderedMap κ ν} {k : κ} {v : ν} (h : m.get? k = some v) (f : ν → ν) :
    m.modify k f = m.insert k (f v) := by
  refine get?_ext fun a => ?_
  rw [get?_modify, get?_insert]
  by_cases ha : a = k
  · subst ha
    simp [h]
  · simp [ha]

/-! ## Walks as series of changes -/

private theorem get?_of_entries {m : OrderedMap κ ν} {done rest : List (κ × ν)} {k : κ} {v : ν}
    (h : m.entries = done ++ (k, v) :: rest) : m.get? k = some v := by
  rw [get?_eq_some_iff, h]
  simp

private theorem entries_put {m : OrderedMap κ ν} {done rest : List (κ × ν)} {k : κ} {v : ν}
    (h : m.entries = done ++ (k, v) :: rest) (o : Option ν) :
    (m.put k o).entries = done ++ ((o.map fun w => (k, w)).toList ++ rest) := by
  have hnodup := m.nodup_keys
  have hsorted := m.sorted
  simp only [keys, h] at hnodup hsorted
  have hwf : ((done ++ ((o.map fun w => (k, w)).toList ++ rest)).map Prod.fst).Pairwise
      fun a b => KeyOrder.before a b = true := by
    refine hsorted.sublist ?_
    cases o <;> simp
  have hput : m.put k o = ⟨_, hwf⟩ := by
    refine get?_ext fun a => ?_
    ext w
    rw [get?_put]
    by_cases ha : a = k
    · subst ha
      have hd : ∀ w, (a, w) ∉ done := by
        intro w hw
        rw [List.map_append, List.nodup_append] at hnodup
        exact hnodup.2.2 a (List.mem_map_of_mem hw) a (by simp) rfl
      have hr : ∀ w, (a, w) ∉ rest := by
        intro w hw
        rw [List.map_append, List.nodup_append, List.map_cons, List.nodup_cons] at hnodup
        exact hnodup.2.1.1 (List.mem_map.2 ⟨_, hw, rfl⟩)
      rw [if_pos rfl, get?_eq_some_iff]
      cases o <;> simp [hd, hr, eq_comm]
    · rw [if_neg ha, get?_eq_some_iff, get?_eq_some_iff, h]
      cases o <;> simp [ha]
  rw [hput]

private theorem foldl_step {f : σ → κ → ν → Option ν × σ}
    {step : OrderedMap κ ν × σ → κ × ν → OrderedMap κ ν × σ}
    (hstep : ∀ m s e, m.get? e.1 = some e.2 →
      step (m, s) e = (m.put e.1 (f s e.1 e.2).1, (f s e.1 e.2).2)) (rest : List (κ × ν)) :
    ∀ (done : List (κ × ν)) (m : OrderedMap κ ν) (s : σ), m.entries = done ++ rest →
      (rest.foldl step (m, s)).1.entries = done ++ (sweepEntries f s rest).1 ∧
        (rest.foldl step (m, s)).2 = (sweepEntries f s rest).2 := by
  induction rest with
  | nil =>
    intro done m s h
    simpa [sweepEntries] using h
  | cons e rest ih =>
    intro done m s h
    have hput := entries_put h (f s e.1 e.2).1
    rw [← List.append_assoc] at hput
    obtain ⟨hm, hs⟩ := ih _ _ (f s e.1 e.2).2 hput
    rw [List.foldl_cons, hstep m s e (get?_of_entries h)]
    refine ⟨hm.trans ?_, hs.trans ?_⟩
    · cases hk : (f s e.1 e.2).1 <;> simp [sweepEntries, hk]
    · cases hk : (f s e.1 e.2).1 <;> simp [sweepEntries, hk]

/-- A walk is a series of single changes. Each finds its entry as it was at the start, since only
the entries before it have been changed. -/
theorem sweep_eq_foldl {f : σ → κ → ν → Option ν × σ}
    {step : OrderedMap κ ν × σ → κ × ν → OrderedMap κ ν × σ}
    (hstep : ∀ m s e, m.get? e.1 = some e.2 →
      step (m, s) e = (m.put e.1 (f s e.1 e.2).1, (f s e.1 e.2).2))
    (s : σ) (m : OrderedMap κ ν) : m.sweep f s = m.entries.foldl step (m, s) := by
  obtain ⟨hm, hs⟩ := foldl_step hstep m.entries [] m s rfl
  refine Prod.ext (ext ?_) hs.symm
  exact hm.symm

/-- Walks side by side that do the same to every entry, and keep their states related. -/
theorem sweep_rel {R : σ → σ → Prop} {f g : σ → κ → ν → Option μ × σ} {m : OrderedMap κ ν}
    (hstep : ∀ k v s s', m.get? k = some v → R s s' →
      (f s k v).1 = (g s' k v).1 ∧ R (f s k v).2 (g s' k v).2) {s s' : σ} (h : R s s') :
    (m.sweep f s).1 = (m.sweep g s').1 ∧ R (m.sweep f s).2 (m.sweep g s').2 := by
  have hlist : ∀ l, (∀ e ∈ l, e ∈ m.entries) → ∀ s s', R s s' →
      (sweepEntries f s l).1 = (sweepEntries g s' l).1 ∧
        R (sweepEntries f s l).2 (sweepEntries g s' l).2 := by
    intro l
    induction l with
    | nil => intro _ s s' h; exact ⟨rfl, h⟩
    | cons e l ih =>
      intro hmem s s' h
      obtain ⟨hvalue, hstate⟩ :=
        hstep e.1 e.2 s s' (get?_eq_some_iff.2 (hmem e List.mem_cons_self)) h
      obtain ⟨hrest, hlast⟩ := ih (fun e he => hmem e (List.mem_cons_of_mem _ he)) _ _ hstate
      simp only [sweepEntries, hvalue]
      cases (g s' e.1 e.2).1 with
      | none => exact ⟨hrest, hlast⟩
      | some v => exact ⟨congrArg ((e.1, v) :: ·) hrest, hlast⟩
  obtain ⟨hentries, hstate⟩ := hlist m.entries (fun _ he => he) s s' h
  exact ⟨ext hentries, hstate⟩

/-! ## Maps made of lists -/

/-- Of several bindings for one key the last counts, and before all of them what was there. -/
theorem get?_foldl_insert (l : List (κ × ν)) (m : OrderedMap κ ν) (k : κ) :
    (l.foldl (fun m e => m.insert e.1 e.2) m).get? k =
      (((l.filter fun e => e.1 = k).getLast?).map Prod.snd).or (m.get? k) := by
  induction l using List.reverseRecOn with
  | nil => rfl
  | append_singleton l e ih =>
    rw [List.foldl_append, List.foldl_cons, List.foldl_nil, get?_insert, List.filter_append]
    by_cases h : e.1 = k
    · simp [h]
    · have hk : k ≠ e.1 := Ne.symm h
      simp [h, hk, ih]

/-- Of several bindings for one key the last counts. -/
theorem get?_ofList (l : List (κ × ν)) (k : κ) :
    (ofList l).get? k = ((l.filter fun e => e.1 = k).getLast?).map Prod.snd := by
  rw [ofList, get?_foldl_insert, get?_empty, Option.or_none]

/-- A map that binds the keys of a list all alike. -/
theorem get?_ofList_map (l : List κ) (v : ν) (k : κ) :
    (ofList (l.map fun a => (a, v))).get? k = if k ∈ l then some v else none := by
  induction l using List.reverseRecOn with
  | nil => rfl
  | append_singleton l a ih =>
    have hof : ofList ((l ++ [a]).map fun b => (b, v)) =
        (ofList (l.map fun b => (b, v))).insert a v := by simp [ofList]
    rw [hof, get?_insert, ih]
    by_cases h : k = a <;> simp [h]

/-- The entries of one map put into another. -/
theorem get?_foldl_insert_entries (n m : OrderedMap κ ν) (k : κ) :
    (n.entries.foldl (fun m e => m.insert e.1 e.2) m).get? k = (n.get? k).or (m.get? k) := by
  rw [get?_foldl_insert]
  congr 1
  cases hlast : (n.entries.filter fun e => e.1 = k).getLast? with
  | none =>
    have hnil := List.getLast?_eq_none_iff.1 hlast
    cases hk : n.get? k with
    | none => rfl
    | some v =>
      have hmem : (k, v) ∈ n.entries.filter fun e => e.1 = k :=
        List.mem_filter.2 ⟨get?_eq_some_iff.1 hk, decide_eq_true rfl⟩
      rw [hnil] at hmem
      cases hmem
  | some e =>
    obtain ⟨hmem, hkey⟩ := List.mem_filter.1 (List.mem_of_getLast? hlast)
    rw [← of_decide_eq_true hkey, get?_eq_some_iff.2 hmem]
    rfl

/-! ## Maps related entry by entry -/

section Rel

variable {R : ν → μ → Prop} {m : OrderedMap κ ν} {m' : OrderedMap κ μ}

/-- The maps have the same keys, and the values of each key are related. -/
def Rel (R : ν → μ → Prop) (m : OrderedMap κ ν) (m' : OrderedMap κ μ) : Prop :=
  ∀ k, Option.Rel R (m.get? k) (m'.get? k)

/-- A key is in neither map, or in both with related values. -/
theorem Rel.cases (h : m.Rel R m') (k : κ) :
    (m.get? k = none ∧ m'.get? k = none) ∨
      ∃ v v', m.get? k = some v ∧ m'.get? k = some v' ∧ R v v' := by
  have hk := h k
  generalize m.get? k = o, m'.get? k = o' at hk
  cases hk with
  | none => exact .inl ⟨rfl, rfl⟩
  | some hv => exact .inr ⟨_, _, rfl, rfl, hv⟩

/-- Functions that agree on related values agree on related maps. -/
theorem Rel.mapWithKey_eq {α : Type} (h : m.Rel R m') {f : κ → ν → α} {g : κ → μ → α}
    (hf : ∀ k v v', R v v' → g k v' = f k v) : m'.mapWithKey g = m.mapWithKey f := by
  refine get?_ext fun k => ?_
  rw [get?_mapWithKey, get?_mapWithKey]
  rcases h.cases k with ⟨hnone, hnone'⟩ | ⟨v, v', hv, hv', hR⟩
  · rw [hnone, hnone', Option.map_none, Option.map_none]
  · rw [hv, hv', Option.map_some, Option.map_some, hf k v v' hR]

theorem Rel.values_map_eq {α : Type} (h : m.Rel R m') {f : ν → α} {g : μ → α}
    (hf : ∀ v v', R v v' → g v' = f v) : m'.values.map g = m.values.map f := by
  have hmap : m'.map g = m.map f := h.mapWithKey_eq fun _ => hf
  rw [← values_map, ← values_map, hmap]

theorem Rel.values_flatMap_eq {α : Type} (h : m.Rel R m') {f : ν → List α} {g : μ → List α}
    (hf : ∀ v v', R v v' → g v' = f v) : m'.values.flatMap g = m.values.flatMap f := by
  rw [List.flatMap_def, List.flatMap_def, h.values_map_eq hf]

theorem Rel.values_filterMap_eq {α : Type} (h : m.Rel R m') {f : ν → Option α}
    {g : μ → Option α} (hf : ∀ v v', R v v' → g v' = f v) :
    m'.values.filterMap g = m.values.filterMap f := by
  have hmap := congrArg (List.filterMap id) (h.values_map_eq hf)
  rwa [List.filterMap_map, List.filterMap_map] at hmap

theorem Rel.values_filter_map_eq {α : Type} (h : m.Rel R m') {p : ν → Bool} {q : μ → Bool}
    {f : ν → α} {g : μ → α} (hp : ∀ v v', R v v' → q v' = p v)
    (hf : ∀ v v', R v v' → g v' = f v) :
    (m'.values.filter q).map g = (m.values.filter p).map f := by
  have hpairs := h.values_map_eq (f := fun v => (p v, f v)) (g := fun v => (q v, g v))
    fun v v' hR => by rw [hp v v' hR, hf v v' hR]
  have hmap := congrArg (fun l => (l.filter Prod.fst).map Prod.snd) hpairs
  simpa [List.filter_map, Function.comp_def] using hmap

theorem Rel.entries_flatMap_eq {α : Type} (h : m.Rel R m') {f : κ → ν → List α}
    {g : κ → μ → List α} (hf : ∀ k v v', R v v' → g k v' = f k v) :
    (m'.entries.flatMap fun e => g e.1 e.2) = m.entries.flatMap fun e => f e.1 e.2 := by
  have hvalues := congrArg (fun m => m.values.flatten) (h.mapWithKey_eq hf)
  simpa [values, mapWithKey, List.flatMap_def, Function.comp_def] using hvalues

theorem Rel.keys_eq (h : m.Rel R m') : m'.keys = m.keys := by
  have hmap := h.mapWithKey_eq (f := fun _ _ => ()) (g := fun _ _ => ()) fun _ _ _ _ => rfl
  rw [← keys_mapWithKey m' fun _ _ => (), hmap, keys_mapWithKey]

theorem Rel.isEmpty_eq (h : m.Rel R m') : m'.isEmpty = m.isEmpty := by
  have hkeys := congrArg List.isEmpty h.keys_eq
  rwa [keys, keys, List.isEmpty_map, List.isEmpty_map] at hkeys

theorem Rel.put (h : m.Rel R m') (k : κ) {o : Option ν} {o' : Option μ} (ho : Option.Rel R o o') :
    (m.put k o).Rel R (m'.put k o') := by
  intro a
  rw [get?_put, get?_put]
  split
  · exact ho
  · exact h a

theorem Rel.modify (h : m.Rel R m') (k : κ) {f : ν → ν} {g : μ → μ}
    (hf : ∀ v v', R v v' → R (f v) (g v')) : (m.modify k f).Rel R (m'.modify k g) := by
  intro a
  rw [get?_modify, get?_modify]
  split
  · rcases h.cases a with ⟨hnone, hnone'⟩ | ⟨v, v', hv, hv', hR⟩
    · rw [hnone, hnone']
      exact .none
    · rw [hv, hv']
      exact .some (hf v v' hR)
  · exact h a

theorem Rel.filter (h : m.Rel R m') {p : κ → ν → Bool} {q : κ → μ → Bool}
    (hp : ∀ k v v', R v v' → q k v' = p k v) : (m.filter p).Rel R (m'.filter q) := by
  intro a
  rw [get?_filter, get?_filter]
  rcases h.cases a with ⟨hnone, hnone'⟩ | ⟨v, v', hv, hv', hR⟩
  · rw [hnone, hnone']
    exact .none
  · rw [hv, hv', Option.filter_some, Option.filter_some, hp a v v' hR]
    split
    · exact .some hR
    · exact .none

end Rel

end Lookup

end RouteKeeper.OrderedMap
