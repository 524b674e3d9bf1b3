/-!
# Finite maps in key order

A map is the list of its entries, sorted strictly by key. The order is part of the type, so two
maps with the same bindings are the same value, and every walk over a map visits the keys in one
known order.

## Main definitions

* `KeyOrder` — a strict linear order on keys that can be decided.
* `OrderedMap` — a map from keys to values, with `get?`, `insert`, `erase` and `modify`.
* `OrderedMap.sweep` — a walk in key order that threads a state and may drop entries.
-/
namespace RouteKeeper

/-- A strict linear order with a decision procedure. -/
class KeyOrder (κ : Type) where
  /-- The first key comes strictly before the second. -/
  before : κ → κ → Bool
  irrefl (a : κ) : before a a = false
  trans {a b c : κ} : before a b = true → before b c = true → before a c = true
  connex {a b : κ} : before a b = false → before b a = false → a = b

namespace KeyOrder

/-- The order that an injective numbering induces. -/
@[reducible] def ofRank {κ : Type} (rank : κ → Nat) (inj : ∀ a b, rank a = rank b → a = b) :
    KeyOrder κ where
  before a b := decide (rank a < rank b)
  irrefl a := by simp
  trans h₁ h₂ := by simp only [decide_eq_true_eq] at *; omega
  connex h₁ h₂ := by
    simp only [decide_eq_false_iff_not] at h₁ h₂
    exact inj _ _ (by omega)

/-- Text is ordered by its code points, the first difference deciding. -/
instance : KeyOrder String where
  before a b := decide (a < b)
  irrefl a := by simp
  trans h₁ h₂ := by
    simp only [decide_eq_true_eq] at *
    exact String.lt_trans h₁ h₂
  connex h₁ h₂ := by
    simp only [decide_eq_false_iff_not, String.not_lt] at h₁ h₂
    exact String.le_antisymm h₂ h₁

/-- The order of the keys carried along an injection. -/
@[reducible] def along {κ μ : Type} [KeyOrder μ] (f : κ → μ) (inj : ∀ a b, f a = f b → a = b) :
    KeyOrder κ where
  before a b := before (f a) (f b)
  irrefl a := irrefl (f a)
  trans h₁ h₂ := trans h₁ h₂
  connex h₁ h₂ := inj _ _ (connex h₁ h₂)

end KeyOrder

/-- A finite map, kept as its entries in strictly increasing key order. -/
structure OrderedMap (κ ν : Type) [KeyOrder κ] where
  entries : List (κ × ν)
  sorted : (entries.map Prod.fst).Pairwise fun a b => KeyOrder.before a b = true

namespace OrderedMap

variable {κ ν μ σ : Type} [KeyOrder κ]

@[ext] theorem ext {m n : OrderedMap κ ν} (h : m.entries = n.entries) : m = n := by
  cases m; cases n; cases h; rfl

instance [DecidableEq κ] [DecidableEq ν] : DecidableEq (OrderedMap κ ν) := fun m n =>
  if h : m.entries = n.entries then isTrue (ext h) else isFalse fun e => h (e ▸ rfl)

/-- The map without entries. -/
def empty : OrderedMap κ ν := ⟨[], List.Pairwise.nil⟩

instance : Inhabited (OrderedMap κ ν) := ⟨empty⟩

/-- The keys, in order. -/
def keys (m : OrderedMap κ ν) : List κ := m.entries.map Prod.fst

/-- The values, in the order of their keys. -/
def values (m : OrderedMap κ ν) : List ν := m.entries.map Prod.snd

/-- The number of entries. -/
def size (m : OrderedMap κ ν) : Nat := m.entries.length

def isEmpty (m : OrderedMap κ ν) : Bool := m.entries.isEmpty

@[simp] theorem entries_empty : (empty : OrderedMap κ ν).entries = [] := rfl

/-- The value bound to a key. -/
def get? [DecidableEq κ] (m : OrderedMap κ ν) (k : κ) : Option ν :=
  (m.entries.find? fun e => e.1 = k).map Prod.snd

/-- The key has a value. -/
def contains [DecidableEq κ] (m : OrderedMap κ ν) (k : κ) : Bool := (m.get? k).isSome

@[simp] theorem get?_empty [DecidableEq κ] (k : κ) : (empty : OrderedMap κ ν).get? k = none := rfl

/-! ## Insertion -/

/-- Put an entry at its place in a sorted list, replacing the one with the same key. -/
def insertEntry (k : κ) (v : ν) : List (κ × ν) → List (κ × ν)
  | [] => [(k, v)]
  | e :: r =>
    if KeyOrder.before k e.1 then (k, v) :: e :: r
    else if KeyOrder.before e.1 k then e :: insertEntry k v r
    else (k, v) :: r

theorem mem_keys_insertEntry {k a : κ} {v : ν} {l : List (κ × ν)} :
    a ∈ (insertEntry k v l).map Prod.fst → a = k ∨ a ∈ l.map Prod.fst := by
  induction l with
  | nil => simp [insertEntry]
  | cons e r ih =>
    unfold insertEntry
    split
    · simp
    · split
      · simp only [List.map_cons, List.mem_cons]
        rintro (h | h)
        · exact .inr (.inl h)
        · exact (ih h).imp_right .inr
      · simp only [List.map_cons, List.mem_cons]
        rintro (h | h)
        · exact .inl h
        · exact .inr (.inr h)

theorem sorted_insertEntry {k : κ} {v : ν} {l : List (κ × ν)}
    (h : (l.map Prod.fst).Pairwise fun a b => KeyOrder.before a b = true) :
    ((insertEntry k v l).map Prod.fst).Pairwise fun a b => KeyOrder.before a b = true := by
  induction l with
  | nil => simp [insertEntry]
  | cons e r ih =>
    simp only [List.map_cons, List.pairwise_cons] at h
    unfold insertEntry
    split
    case isTrue hk =>
      simp only [List.map_cons, List.pairwise_cons, List.mem_cons, forall_eq_or_imp]
      exact ⟨⟨hk, fun a ha => KeyOrder.trans hk (h.1 a ha)⟩, h.1, h.2⟩
    case isFalse hk =>
      split
      case isTrue hk' =>
        simp only [List.map_cons, List.pairwise_cons]
        refine ⟨fun a ha => ?_, ih h.2⟩
        rcases mem_keys_insertEntry ha with rfl | ha
        · exact hk'
        · exact h.1 a ha
      case isFalse hk' =>
        have : k = e.1 := KeyOrder.connex (by simpa using hk) (by simpa using hk')
        simp only [List.map_cons, List.pairwise_cons]
        exact ⟨this ▸ h.1, h.2⟩

/-- Bind a key to a value, replacing the value it had. -/
def insert (m : OrderedMap κ ν) (k : κ) (v : ν) : OrderedMap κ ν :=
  ⟨insertEntry k v m.entries, sorted_insertEntry m.sorted⟩

/-- The map of a list of bindings; of two for one key the later counts. -/
def ofList (l : List (κ × ν)) : OrderedMap κ ν := l.foldl (fun m e => m.insert e.1 e.2) empty

/-! ## Walks -/

/-- Walk a list of entries with a running state; each entry gets a new value or is dropped. -/
def sweepEntries (f : σ → κ → ν → Option μ × σ) : σ → List (κ × ν) → List (κ × μ) × σ
  | s, [] => ([], s)
  | s, e :: r =>
    let here := f s e.1 e.2
    let rest := sweepEntries f here.2 r
    match here.1 with
    | some v => ((e.1, v) :: rest.1, rest.2)
    | none => rest

omit [KeyOrder κ] in
theorem sublist_keys_sweepEntries (f : σ → κ → ν → Option μ × σ) (s : σ) (l : List (κ × ν)) :
    ((sweepEntries f s l).1.map Prod.fst).Sublist (l.map Prod.fst) := by
  induction l generalizing s with
  | nil => exact List.Sublist.slnil
  | cons e r ih =>
    simp only [sweepEntries, List.map_cons]
    cases (f s e.1 e.2).1 with
    | some v => exact (ih _).cons_cons _
    | none => exact (ih _).cons _

/-- Walk a map in key order with a running state; each entry gets a new value or is dropped. -/
def sweep (f : σ → κ → ν → Option μ × σ) (s : σ) (m : OrderedMap κ ν) : OrderedMap κ μ × σ :=
  (⟨(sweepEntries f s m.entries).1, m.sorted.sublist (sublist_keys_sweepEntries f s m.entries)⟩,
    (sweepEntries f s m.entries).2)

/-- Change every value, given its key. -/
def mapWithKey (f : κ → ν → μ) (m : OrderedMap κ ν) : OrderedMap κ μ :=
  ⟨m.entries.map fun e => (e.1, f e.1 e.2), by
    have : (m.entries.map fun e => (e.1, f e.1 e.2)).map Prod.fst = m.entries.map Prod.fst := by
      simp [Function.comp_def]
    rw [this]
    exact m.sorted⟩

/-- Change every value. -/
def map (f : ν → μ) (m : OrderedMap κ ν) : OrderedMap κ μ := m.mapWithKey fun _ => f

/-- Keep the entries that pass a test. -/
def filter (p : κ → ν → Bool) (m : OrderedMap κ ν) : OrderedMap κ ν :=
  ⟨m.entries.filter fun e => p e.1 e.2,
    m.sorted.sublist ((List.filter_sublist (p := fun e => p e.1 e.2)).map Prod.fst)⟩

/-- Forget a key. -/
def erase [DecidableEq κ] (m : OrderedMap κ ν) (k : κ) : OrderedMap κ ν :=
  m.filter fun a _ => a ≠ k

/-- Change the value of a key that has one. -/
def modify [DecidableEq κ] (m : OrderedMap κ ν) (k : κ) (f : ν → ν) : OrderedMap κ ν :=
  m.mapWithKey fun a v => if a = k then f v else v

/-! ## Reading after writing -/

section Reading

variable [DecidableEq κ]

@[simp] theorem get?_insert_self (m : OrderedMap κ ν) (k : κ) (v : ν) :
    (m.insert k v).get? k = some v := by
  show ((insertEntry k v m.entries).find? fun e => e.1 = k).map Prod.snd = some v
  induction m.entries with
  | nil => simp [insertEntry]
  | cons e r ih =>
    unfold insertEntry
    split
    · simp
    · rename_i h
      split
      · rename_i h'
        have : e.1 ≠ k := fun he => by simp [he, KeyOrder.irrefl] at h'
        simpa [this] using ih
      · simp

theorem get?_insert_of_ne (m : OrderedMap κ ν) {k a : κ} (v : ν) (h : a ≠ k) :
    (m.insert k v).get? a = m.get? a := by
  show ((insertEntry k v m.entries).find? fun e => e.1 = a).map Prod.snd =
    (m.entries.find? fun e => e.1 = a).map Prod.snd
  induction m.entries with
  | nil => simp [insertEntry, Ne.symm h]
  | cons e r ih =>
    unfold insertEntry
    split
    · simp [List.find?_cons, Ne.symm h]
    · rename_i hk
      split
      · by_cases he : e.1 = a
        · simp [he]
        · simpa [List.find?_cons, he] using ih
      · rename_i hk'
        have : k = e.1 := KeyOrder.connex (by simpa using hk) (by simpa using hk')
        have he : e.1 ≠ a := fun he => h (by rw [← he, this])
        simp [Ne.symm h, he]

theorem get?_mapWithKey (m : OrderedMap κ ν) (f : κ → ν → μ) (k : κ) :
    (m.mapWithKey f).get? k = (m.get? k).map (f k) := by
  show ((m.entries.map fun e => (e.1, f e.1 e.2)).find? fun e => e.1 = k).map Prod.snd =
    ((m.entries.find? fun e => e.1 = k).map Prod.snd).map (f k)
  induction m.entries with
  | nil => rfl
  | cons e r ih =>
    by_cases he : e.1 = k
    · simp [he]
    · simpa [List.find?_cons, he] using ih

@[simp] theorem get?_modify_self (m : OrderedMap κ ν) (k : κ) (f : ν → ν) :
    (m.modify k f).get? k = (m.get? k).map f := by
  simp [modify, get?_mapWithKey]

theorem get?_modify_of_ne (m : OrderedMap κ ν) {k a : κ} (f : ν → ν) (h : a ≠ k) :
    (m.modify k f).get? a = m.get? a := by
  simp [modify, get?_mapWithKey, h]

@[simp] theorem get?_erase_self (m : OrderedMap κ ν) (k : κ) : (m.erase k).get? k = none := by
  show ((m.entries.filter fun e => e.1 ≠ k).find? fun e => e.1 = k).map Prod.snd = none
  simp [List.find?_eq_none]

theorem get?_erase_of_ne (m : OrderedMap κ ν) {k a : κ} (h : a ≠ k) :
    (m.erase k).get? a = m.get? a := by
  show ((m.entries.filter fun e => e.1 ≠ k).find? fun e => e.1 = a).map Prod.snd =
    (m.entries.find? fun e => e.1 = a).map Prod.snd
  induction m.entries with
  | nil => rfl
  | cons e r ih =>
    by_cases he : e.1 = k
    · have : ¬ e.1 = a := fun ha => h (ha ▸ he)
      simpa [List.filter_cons, he, List.find?_cons, this, Ne.symm h] using ih
    · by_cases ha : e.1 = a
      · simp [ha, h]
      · simpa [List.filter_cons, he, List.find?_cons, ha] using ih

end Reading

@[simp] theorem keys_mapWithKey (m : OrderedMap κ ν) (f : κ → ν → μ) :
    (m.mapWithKey f).keys = m.keys := by
  simp [keys, mapWithKey, Function.comp_def]

@[simp] theorem keys_modify [DecidableEq κ] (m : OrderedMap κ ν) (k : κ) (f : ν → ν) :
    (m.modify k f).keys = m.keys := keys_mapWithKey m _

end OrderedMap

end RouteKeeper
