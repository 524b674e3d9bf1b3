import RouteKeeper.Proofs.Runs
import RouteKeeper.RouteTable.Memory

/-!
# Marks that exclude each other

A path or a candidate for a service may wait to be taken in, or wait to be removed. No path ever
waits for both: whatever sets one of the two marks takes the other off. For candidates that is so
but for one operation. Where a path is marked to be removed, its candidacies are marked as well, and
a candidacy that waited to be taken in then waits for both, until something else is asked for it or
its service is settled.

## Main definitions

* `Flags.clashes` — both marks at once.
* `Router.candidate?` — the marks of a candidate for a service.
* `Operation.Overrides` — the operation marks a candidate to be removed that waits to be taken in.

## Main statements

* `Router.Decided.reconcileWith`, `Run.decided_after` — no path waits for both.
* `Router.candidate?_edit` — what an operation leaves of a candidate.
* `Router.candidate?_reconcileWith` — a reconciliation takes candidates in, or leaves them.
* `Service.pendingAdds_add_pendingDeletes` — the two counts, and the candidates that are in both.
* `Run.clashes_iff` — a candidate waits for both exactly if it was overridden and did not recover
  since.
-/
namespace RouteKeeper

variable {σ : Type}

namespace Flags

/-- To be taken in and to be removed at once. -/
def clashes (f : Flags) : Bool := f.pendingAdd && f.pendingDelete

theorem clashes_iff {f : Flags} :
    f.clashes = true ↔ f.pendingAdd = true ∧ f.pendingDelete = true := Bool.and_eq_true_iff

theorem clashes_of_pendingAdd {f : Flags} (h : f.pendingAdd = false) : f.clashes = false := by
  rw [clashes, h, Bool.false_and]

theorem clashes_of_pendingDelete {f : Flags} (h : f.pendingDelete = false) : f.clashes = false := by
  rw [clashes, h, Bool.and_false]

@[simp] theorem clashes_toDelete (f : Flags) : f.toDelete.clashes = false :=
  clashes_of_pendingAdd rfl

@[simp] theorem clashes_toAdd (f : Flags) : f.toAdd.clashes = false := clashes_of_pendingDelete rfl

end Flags

/-! ## Paths -/

namespace Router

/-- No path waits both to be installed and to be removed. -/
def Decided (r : Router) : Prop := ∀ n c p, r.path? n c = some p → p.flags.clashes = false

variable {r : Router}

theorem clashes_requested (name : GroupName) (spec : PathSpec) :
    (r.requested name spec).flags.clashes = false := by
  rw [requested]
  cases r.path? name spec.connection <;> exact Flags.clashes_of_pendingDelete rfl

theorem Decided.edit (h : r.Decided) (op : Operation) : (op.edit r).Decided := by
  intro n c p' hp'
  rcases Operation.path?_edit hp' with ⟨spec, -, -, -, rfl⟩ | ⟨p, hp, hkept⟩
  · exact clashes_requested n spec
  · rcases hkept.flags with hflags | hflags
    · rw [hflags]
      exact h n c p hp
    · rw [hflags, Flags.clashes_toDelete]

end Router

/-- A turn leaves a path waiting for no more than it did. -/
theorem PathTurn.clashes {T : RouteTable σ} {managed : List String} {group : GroupName}
    {pass pass' : Pass σ} {path path' : Path}
    (h : PathTurn T managed group pass path (some path') pass')
    (hpath : path.flags.clashes = false) : path'.flags.clashes = false := by
  cases h with
  | removeFailed | idle | installFailed => exact hpath
  | install => exact Flags.clashes_of_pendingAdd rfl

theorem Stage.Turned.decided {T : RouteTable σ} {managed : List String} {s s' : Stage σ}
    {turn : Turn} (h : Turned T managed s turn s') (hk : s.router.Keyed)
    (hs : s.router.Decided) : s'.router.Decided := by
  intro n c p' hp'
  by_cases hown : turn = .path n c
  · subst hown
    rcases h.path_cases hk with ⟨-, rfl⟩ | ⟨p, kept, hp, hturn, hkept⟩
    · exact hs n c p' hp'
    · rw [hp'] at hkept
      subst hkept
      exact hturn.clashes (hs n c p hp)
  · rw [h.path?_of_ne hown] at hp'
    exact hs n c p' hp'

namespace Resolution

variable {T : RouteTable σ} {res res' : Resolution σ} {d : Prefix} {claim : Claim}

theorem Disabled.decided (h : Disabled T res d claim res') (hres : res.router.Decided) :
    res'.router.Decided := by
  intro n c p' hp'
  rcases h.path?_cases hp' with hp | ⟨p, -, hp, rfl, -⟩
  · exact hres n c p' hp
  · exact hres n c p hp

/-- A claim that is enabled is one of a path that is to stay. -/
theorem Enabled.decided (h : Enabled res d claim res') (hres : res.router.Decided) :
    res'.router.Decided := by
  intro n c p' hp'
  cases h with
  | service _ hgroup =>
    rw [Router.path?_putService hgroup] at hp'
    exact hres n c p' hp'
  | path _ hgroup _ hlive =>
    rw [Router.path?_putPath hgroup] at hp'
    split at hp'
    case isTrue =>
      cases hp'
      exact Flags.clashes_of_pendingDelete hlive
    case isFalse => exact hres n c p' hp'

end Resolution

namespace Router

variable {r : Router}

/-- No path waits for both after a reconciliation, whatever fails in it. -/
theorem Decided.reconcileWith (h : r.Decided) (hk : r.Keyed) (T : RouteTable σ)
    (visits : Nat → Visit) (table : σ) : (r.reconcileWith T visits table).router.Decided := by
  refine reconcileWith_stages hk (A := fun _ => True) (fun _ _ => trivial)
    (Q := fun r _ _ => r.Decided) (S := fun _ s => s.router.Decided) h
    (fun _ _ _ _ h => h) (fun _ _ _ _ hs hturned _ h => hturned.decided hs h) (fun _ _ h => h)
    (fun _ _ _ _ _ hdisabled _ h => hdisabled.decided h)
    (fun _ _ _ _ _ henabled h => henabled.decided h) ?_
  intro r _ _ h n c p hp
  rw [path?_pruned] at hp
  exact h n c p hp

theorem Reachable.decided (h : r.Reachable) : r.Decided :=
  h.edit_induction (fun _ => nofun) (fun _ op h => h.edit op)
    fun _ T visits table hk h => h.reconcileWith hk T visits table

end Router

/-! ## Candidates -/

namespace Router

/-- The marks of a candidate for a service. -/
def candidate? (r : Router) (n : GroupName) (d : Prefix) (c : ConnectionName) : Option Flags :=
  (r.service? n d).bind (·.candidates.get? c)

end Router

/-- The operation marks a path to be removed while the path, as a candidate for the service, waits
to be taken in. -/
def Operation.Overrides (op : Operation) (r : Router) (n : GroupName) (d : Prefix)
    (c : ConnectionName) : Prop :=
  op = .deletePeer n c ∧ (∃ p, r.path? n c = some p) ∧
    ∃ f, r.candidate? n d c = some f ∧ f.pendingAdd = true

namespace Router

variable {r : Router}

/-! ### Operations -/

/-- A path to be removed that is there takes its candidacies along. -/
theorem candidates_deletePath (g : Group) (connection : ConnectionName) (d : Prefix)
    (c : ConnectionName) :
    ((g.deletePath connection).services.get? d).bind (·.candidates.get? c) =
      if c = connection ∧ g.paths.get? c ≠ none then
        ((g.services.get? d).bind (·.candidates.get? c)).map fun f => { f with pendingDelete := true }
      else (g.services.get? d).bind (·.candidates.get? c) := by
  unfold Group.deletePath
  split
  case isTrue hthere =>
    rw [OrderedMap.contains, Option.isSome_iff_ne_none] at hthere
    rw [OrderedMap.get?_map]
    by_cases hc : c = connection
    · subst hc
      rw [if_pos ⟨rfl, hthere⟩]
      cases g.services.get? d <;> simp
    · rw [if_neg fun h => hc h.1]
      cases g.services.get? d <;> simp [OrderedMap.get?_modify, hc]
  case isFalse habsent =>
    rw [OrderedMap.contains, Option.isSome_iff_ne_none] at habsent
    rw [if_neg]
    rintro ⟨rfl, hthere⟩
    exact habsent hthere

/-- A candidate that is asked for is to be taken in. -/
theorem candidates_addService (g : Group) (destination : Prefix) (connection : ConnectionName)
    (claim : Nat) (d : Prefix) (c : ConnectionName) :
    ((g.addService destination connection claim).services.get? d).bind (·.candidates.get? c) =
      if d = destination.normal ∧ c = connection then
        some (((g.services.get? d).bind (·.candidates.get? c)).getD .none).toAdd
      else (g.services.get? d).bind (·.candidates.get? c) := by
  rw [Group.addService, OrderedMap.get?_insert]
  by_cases hd : d = destination.normal
  · subst hd
    rw [if_pos rfl, Option.bind_some, OrderedMap.get?_insert]
    by_cases hc : c = connection
    · subst hc
      rw [if_pos rfl, if_pos ⟨rfl, rfl⟩]
      cases g.services.get? destination.normal <;> rfl
    · rw [if_neg hc, if_neg fun h => hc h.2]
      cases g.services.get? destination.normal <;> rfl
  · rw [if_neg hd, if_neg fun h => hd h.1]

section Edit

variable (name : GroupName) (destination : Prefix) (connection : ConnectionName) (n : GroupName)
  (d : Prefix) (c : ConnectionName)

/-- Marking a path that is there to be removed marks its candidacies, whatever they wait for. -/
theorem candidate?_deletePeer :
    (r.deletePeer name connection).candidate? n d c =
      if n = name ∧ c = connection ∧ r.path? n c ≠ none then
        (r.candidate? n d c).map fun f => { f with pendingDelete := true }
      else r.candidate? n d c := by
  by_cases hn : n = name
  · subst hn
    cases hgroup : r.groups.get? n with
    | none => simp [deletePeer, candidate?, service?, hgroup]
    | some g =>
      have hdeleted : (r.deletePeer n connection).groups.get? n = some (g.deletePath connection) := by
        rw [deletePeer, OrderedMap.get?_modify, if_pos rfl, hgroup, Option.map_some]
      rw [candidate?, candidate?, service?_of_get? hdeleted, service?_of_get? hgroup,
        candidates_deletePath, path?_of_get? hgroup]
      simp only [true_and]
  · rw [if_neg fun h => hn h.1]
    simp only [deletePeer, candidate?, service?, OrderedMap.get?_modify, if_neg hn]

theorem candidate?_addService :
    (r.addService name destination connection).candidate? n d c =
      if n = name ∧ d = destination.normal ∧ c = connection then
        some ((r.candidate? n d c).getD .none).toAdd
      else r.candidate? n d c := by
  by_cases hn : n = name
  · subst hn
    have hadded : (r.addService n destination connection).groups.get? n =
        some ((r.group n).addService destination connection (r.claims + 1)) := by
      rw [addService, OrderedMap.get?_insert, if_pos rfl]
    rw [candidate?, candidate?, service?_of_get? hadded, candidates_addService, services_group]
    simp only [true_and]
  · rw [if_neg fun h => hn h.1]
    simp only [addService, candidate?, service?, OrderedMap.get?_insert, if_neg hn]

theorem candidate?_deleteService :
    (r.deleteService name destination connection).candidate? n d c =
      if n = name ∧ d = destination.normal ∧ c = connection then
        (r.candidate? n d c).map Flags.toDelete
      else r.candidate? n d c := by
  simp only [deleteService, candidate?, service?, OrderedMap.get?_modify]
  by_cases hn : n = name
  · rw [if_pos hn]
    cases r.groups.get? n with
    | none => simp
    | some g =>
      simp only [Option.map_some, Option.bind_some, Group.deleteService, OrderedMap.get?_modify]
      by_cases hd : d = destination.normal
      · cases g.services.get? d <;> by_cases hc : c = connection <;>
          simp [OrderedMap.get?_modify, hn, hd, hc]
      · simp [hd]
  · simp [hn]

theorem candidate?_flush :
    r.flush.candidate? n d c = (r.candidate? n d c).map Flags.toDelete := by
  simp only [flush, candidate?, service?, OrderedMap.get?_map]
  cases r.groups.get? n with
  | none => rfl
  | some g =>
    simp only [Option.map_some, Option.bind_some, Group.flush, OrderedMap.get?_map]
    cases g.services.get? d <;> simp

end Edit

/-- What an operation leaves of a candidate: it is to be taken in, or removed, or as it was, unless
it was overridden. -/
theorem candidate?_edit {n : GroupName} {d : Prefix} {c : ConnectionName} {op : Operation}
    {f' : Flags} (h : (op.edit r).candidate? n d c = some f') (hclash : f'.clashes = true) :
    r.candidate? n d c = some f' ∨ op.Overrides r n d c := by
  have hnever : ∀ {o : Option Flags}, o.map Flags.toDelete ≠ some f' := by
    intro o ho
    obtain ⟨f, -, rfl⟩ := Option.map_eq_some_iff.1 ho
    rw [Flags.clashes_toDelete] at hclash
    cases hclash
  cases op with
  | addPeer name spec =>
    rw [candidate?, Operation.edit, service?_addPeer] at h
    exact .inl h
  | deletePeer name connection =>
    rw [Operation.edit, candidate?_deletePeer] at h
    split at h
    case isFalse => exact .inl h
    case isTrue hthere =>
      obtain ⟨rfl, rfl, hpath⟩ := hthere
      obtain ⟨f, hf, rfl⟩ := Option.map_eq_some_iff.1 h
      have hadd := (Flags.clashes_iff.1 hclash).1
      exact .inr ⟨rfl, Option.ne_none_iff_exists'.1 hpath, f, hf, hadd⟩
  | addService name destination connection =>
    rw [Operation.edit, candidate?_addService] at h
    split at h
    case isFalse => exact .inl h
    case isTrue =>
      rw [← Option.some.inj h, Flags.clashes_toAdd] at hclash
      cases hclash
  | deleteService name destination connection =>
    rw [Operation.edit, candidate?_deleteService] at h
    split at h
    case isFalse => exact .inl h
    case isTrue => exact absurd h hnever
  | flush =>
    rw [Operation.edit, candidate?_flush] at h
    exact absurd h hnever
  | recordRound results =>
    rw [candidate?, Operation.edit, service?_recordRound] at h
    exact .inl h
  | reconcile => exact .inl h

end Router

/-- An operation that overrides a candidate leaves it waiting for both. -/
theorem Operation.Overrides.clashes {op : Operation} {r : Router} {n : GroupName} {d : Prefix}
    {c : ConnectionName} (h : op.Overrides r n d c) :
    ∃ f', (op.edit r).candidate? n d c = some f' ∧ f'.clashes = true := by
  obtain ⟨rfl, ⟨p, hp⟩, f, hf, hadd⟩ := h
  have hthere : r.path? n c ≠ none := by rw [hp]; exact Option.some_ne_none p
  refine ⟨{ f with pendingDelete := true }, ?_, Flags.clashes_iff.2 ⟨hadd, rfl⟩⟩
  rw [edit, Router.candidate?_deletePeer, if_pos ⟨rfl, rfl, hthere⟩, hf, Option.map_some]

/-! ### Reconciliations -/

/-- A candidate of a service that is settled was one before, is to stay, and is taken in. -/
theorem Service.get?_commit {s : Service} {c : ConnectionName} {f' : Flags}
    (h : s.commit.candidates.get? c = some f') :
    ∃ f, s.candidates.get? c = some f ∧ f.pendingDelete = false ∧
      f' = { f with pendingAdd := false } := by
  simp only [commit, OrderedMap.get?_map, OrderedMap.get?_filter] at h
  obtain ⟨f, hf, rfl⟩ := Option.map_eq_some_iff.1 h
  obtain ⟨hf, hlive⟩ := Option.filter_eq_some_iff.1 hf
  exact ⟨f, hf, by simpa using hlive, rfl⟩

/-- A turn settles the candidates of a service, or leaves them. -/
theorem ServiceTurn.candidates_cases {T : RouteTable σ} {managed : List String} {g : Group}
    {pass pass' : Pass σ} {service service' : Service}
    (h : ServiceTurn T managed g pass service (some service') pass') :
    service'.candidates = service.commit.candidates ∨
      service'.candidates = service.candidates := by
  have hsettled : ∀ active : Option ActiveRoute,
      ({ service with active } : Service).settle = some service' →
        service'.candidates = service.commit.candidates := by
    intro active hsettle
    rw [(Service.settle_eq_some_iff.1 hsettle).1]
    rfl
  generalize hkept : some service' = kept at h
  cases h with
  | keep | clear | install | move => exact .inl (hsettled _ hkept.symm)
  | blocked | clearFailed | installFailed | moveFailed =>
    cases hkept
    exact .inr rfl

namespace Router

variable {r r' : Router}

/-- The candidates of the second router that wait for both are candidates of the first that do. -/
def ClashesWithin (r r' : Router) : Prop :=
  ∀ n d c f, r'.candidate? n d c = some f → f.clashes = true → r.candidate? n d c = some f

theorem candidate?_eq_some_iff {n : GroupName} {d : Prefix} {c : ConnectionName} {f : Flags} :
    r.candidate? n d c = some f ↔
      ∃ s, r.service? n d = some s ∧ s.candidates.get? c = some f := Option.bind_eq_some_iff

/-- Where every service has candidates as before, no candidate is new. -/
theorem ClashesWithin.of_services (h : ∀ n d s', r'.service? n d = some s' →
    ∃ s, r.service? n d = some s ∧ s'.candidates = s.candidates) : r.ClashesWithin r' := by
  rintro n d c f hf -
  obtain ⟨s', hs', hcandidate⟩ := candidate?_eq_some_iff.1 hf
  obtain ⟨s, hs, hsame⟩ := h n d s' hs'
  exact candidate?_eq_some_iff.2 ⟨s, hs, hsame ▸ hcandidate⟩

end Router

theorem Stage.Turned.clashesWithin {T : RouteTable σ} {managed : List String} {s s' : Stage σ}
    {turn : Turn} (h : Turned T managed s turn s') : s.router.ClashesWithin s'.router := by
  intro n d c f hf hclash
  obtain ⟨service', hservice', hcandidate⟩ := Router.candidate?_eq_some_iff.1 hf
  by_cases hown : turn = .service n d
  · subst hown
    rcases h.service_cases with ⟨-, rfl⟩ | ⟨g, service, kept, hgroup, hservice, hturn, hkept⟩
    · exact hf
    · rw [hservice'] at hkept
      subst hkept
      have hbefore := Router.service?_eq_some_iff.2 ⟨g, hgroup, hservice⟩
      rcases hturn.candidates_cases with hsettled | hsame
      · rw [hsettled] at hcandidate
        obtain ⟨f, -, -, rfl⟩ := Service.get?_commit hcandidate
        rw [Flags.clashes_of_pendingAdd rfl] at hclash
        cases hclash
      · exact Router.candidate?_eq_some_iff.2 ⟨service, hbefore, hsame ▸ hcandidate⟩
  · rwa [Router.candidate?, h.service?_of_ne hown] at hf

namespace Router

variable {r : Router}

/-- A reconciliation leaves no candidate waiting for both that did not before. -/
theorem clashesWithin_reconcileWith (hk : r.Keyed) (T : RouteTable σ) (visits : Nat → Visit)
    (table : σ) : r.ClashesWithin (r.reconcileWith T visits table).router := by
  have htrans : ∀ {r' r'' : Router}, r.ClashesWithin r' → r'.ClashesWithin r'' →
      r.ClashesWithin r'' :=
    fun h h' n d c f hf hclash => h n d c f (h' n d c f hf hclash) hclash
  refine reconcileWith_stages hk (A := fun _ => True) (fun _ _ => trivial)
    (Q := fun r' _ _ => r.ClashesWithin r') (S := fun _ s => r.ClashesWithin s.router)
    (fun _ _ _ _ hf _ => hf) (fun _ _ _ _ h => h)
    (fun _ _ _ _ _ hturned _ h => htrans h hturned.clashesWithin) (fun _ _ h => h) ?_ ?_ ?_
  · intro res d claim res' _ hdisabled _ h
    refine htrans h (.of_services fun n e s' hs' => ?_)
    rcases hdisabled.service?_cases hs' with hs | ⟨s, stays, hs, rfl, -⟩
    · exact ⟨s', hs, rfl⟩
    · exact ⟨s, hs, rfl⟩
  · intro res d claim res' _ henabled h
    refine htrans h (.of_services fun n e s' hs' => ?_)
    rcases henabled.service?_cases hs' with hs | ⟨s, hs, rfl⟩
    · exact ⟨s', hs, rfl⟩
    · exact ⟨s, hs, rfl⟩
  · intro r' _ _ h
    refine htrans h (.of_services fun n e s' hs' => ?_)
    rw [service?_pruned] at hs'
    exact ⟨s', hs', rfl⟩

end Router

/-! ## Counts -/

/-- Elements counted for one property or for another are those with either, and those with both once
more. -/
theorem countP_add_countP {α : Type} (p q : α → Bool) (l : List α) :
    l.countP p + l.countP q = l.countP (fun a => p a || q a) + l.countP fun a => p a && q a := by
  induction l with
  | nil => rfl
  | cons a l ih =>
    simp only [List.countP_cons]
    cases p a <;> cases q a <;> simp <;> omega

namespace Service

/-- Candidates that wait to be taken in and candidates that wait to be removed are no more than
there are, unless some are counted for both. -/
theorem pendingAdds_add_pendingDeletes (s : Service) :
    s.pendingAdds + s.pendingDeletes ≤
      s.candidates.size + s.candidates.values.countP Flags.clashes := by
  have hsize : s.candidates.values.length = s.candidates.size := List.length_map _
  rw [pendingAdds, pendingDeletes, countP_add_countP, ← hsize]
  exact Nat.add_le_add_right List.countP_le_length _

/-- Where no candidate waits for both, the two counts are no more than the candidates. -/
theorem pendingAdds_add_pendingDeletes_le {s : Service}
    (h : ∀ c f, s.candidates.get? c = some f → f.clashes = false) :
    s.pendingAdds + s.pendingDeletes ≤ s.candidates.size := by
  have hnone : s.candidates.values.countP Flags.clashes = 0 := by
    rw [List.countP_eq_zero]
    intro f hf
    obtain ⟨c, hc⟩ := OrderedMap.mem_values_iff.1 hf
    rw [h c f hc]
    exact Bool.false_ne_true
  have hcounts := s.pendingAdds_add_pendingDeletes
  rwa [hnone] at hcounts

end Service

/-! ## Runs -/

namespace Run

variable {T : RouteTable σ} {policy : Policy} {table : σ} {n : GroupName} {d : Prefix}
  {c : ConnectionName}

/-- The candidate for the service, if it is one, waits for one thing at most. -/
def WaitsOnce (s : Run σ) (n : GroupName) (d : Prefix) (c : ConnectionName) : Prop :=
  ∀ f, s.router.candidate? n d c = some f → f.clashes = false

/-- Only an operation that overrides a candidate makes it wait for both. -/
theorem waitsOnce_after_concat {ops : List Operation} {op : Operation}
    (h : (after T policy table ops).WaitsOnce n d c)
    (hcalm : ¬ op.Overrides (after T policy table ops).router n d c) :
    (after T policy table (ops ++ [op])).WaitsOnce n d c := by
  intro f hf
  rw [after_concat] at hf
  by_contra hclash
  rw [Bool.not_eq_false] at hclash
  by_cases hreconcile : ∃ visits, op = .reconcile visits
  · obtain ⟨visits, rfl⟩ := hreconcile
    rw [router_perform_reconcile] at hf
    have hbefore := Router.clashesWithin_reconcileWith (keyed_after ops) T visits _ n d c f hf hclash
    rw [h f hbefore] at hclash
    cases hclash
  · rw [perform_of_ne (not_exists.1 hreconcile)] at hf
    rcases Router.candidate?_edit hf hclash with hbefore | hoverrides
    · rw [h f hbefore] at hclash
      cases hclash
    · exact hcalm hoverrides

/-- A candidate that is overridden waits for both. -/
theorem not_waitsOnce_of_overrides {ops : List Operation} {op : Operation}
    (h : op.Overrides (after T policy table ops).router n d c) :
    ¬ (after T policy table (ops ++ [op])).WaitsOnce n d c := by
  intro honce
  obtain ⟨f, hf, hclash⟩ := h.clashes
  have hne : ∀ visits, op ≠ .reconcile visits := by
    rintro visits rfl
    cases h.1
  have hafter : (after T policy table (ops ++ [op])).router.candidate? n d c = some f := by
    rw [after_concat, perform_of_ne hne]
    exact hf
  rw [honce f hafter] at hclash
  cases hclash

/-- After any operations, over any table, whatever fails. No path waits both to be installed and to
be removed. A candidate waits both to be taken in and to be removed exactly if some operation
overrode it and it did not recover since; every operation that overrides it has this effect. And the
two counts of a service exceed the number of its candidates at most by those that wait for both, so
not at all if there are none. -/
theorem waitsOnce_iff (T : RouteTable σ) (policy : Policy) (table : σ) (ops : List Operation) :
    (∀ n c p, (after T policy table ops).router.path? n c = some p → p.flags.clashes = false) ∧
    (∀ n d c, (after T policy table ops).WaitsOnce n d c ↔
      ¬ LostSince (fun ops => (after T policy table ops).WaitsOnce n d c)
        (fun ops op => op.Overrides (after T policy table ops).router n d c) ops) ∧
    (∀ op n d c, op.Overrides (after T policy table ops).router n d c →
      ¬ (after T policy table (ops ++ [op])).WaitsOnce n d c) ∧
    ∀ n d s, (after T policy table ops).router.service? n d = some s →
      s.pendingAdds + s.pendingDeletes ≤
          s.candidates.size + s.candidates.values.countP Flags.clashes ∧
        ((∀ c, (after T policy table ops).WaitsOnce n d c) →
          s.pendingAdds + s.pendingDeletes ≤ s.candidates.size) := by
  refine ⟨(reachable_after ops).decided, fun n d c => ?_,
    fun _ _ _ _ h => not_waitsOnce_of_overrides h,
    fun n d s hs => ⟨s.pendingAdds_add_pendingDeletes, fun honce => ?_⟩⟩
  · rw [lostSince_iff, not_not]
    · exact nofun
    · exact fun _ _ h hcalm => waitsOnce_after_concat h hcalm
  · refine Service.pendingAdds_add_pendingDeletes_le fun c f hf => ?_
    exact honce c f (Router.candidate?_eq_some_iff.2 ⟨s, hs, hf⟩)

/-- The prefix of a service. -/
def lan : Prefix := ⟨.v4 0x0A080000, 16, Nat.le_of_ble_eq_true rfl⟩

/-- A path is asked for, then a service through it, and then the path is to be removed. -/
def overriding : List Operation :=
  [.addPeer ⟨"alpha"⟩ (.v4 "t1" "wg-a" 1), .addService ⟨"alpha"⟩ lan ⟨"t1"⟩,
    .deletePeer ⟨"alpha"⟩ ⟨"t1"⟩]

/-- The run over them. -/
def overridden : Run RouteTable.Memory := after RouteTable.memory .default .empty overriding

/-- The candidate waits both to be taken in and to be removed, and is counted for both. -/
theorem overriding_clashes :
    overridden.router.candidate? ⟨"alpha"⟩ lan ⟨"t1"⟩ = some ⟨true, true, false, 0⟩ ∧
      ∃ s, overridden.router.service? ⟨"alpha"⟩ lan = some s ∧
        s.pendingAdds + s.pendingDeletes = 2 ∧ s.candidates.size = 1 := by
  have hcounts : (overridden.router.service? ⟨"alpha"⟩ lan).map
      (fun s => (s.pendingAdds + s.pendingDeletes, s.candidates.size)) = some (2, 1) := by
    decide +kernel
  obtain ⟨s, hs, hcounts⟩ := Option.map_eq_some_iff.1 hcounts
  obtain ⟨htwo, hone⟩ := Prod.mk.inj hcounts
  exact ⟨by decide +kernel, s, hs, htwo, hone⟩

/-- The same, and then the service through the path is asked for again. -/
def recovering : List Operation := overriding ++ [.addService ⟨"alpha"⟩ lan ⟨"t1"⟩]

/-- A candidate that is overridden waits for both; asked for again it has recovered, and the two
counts are no more than the candidates. -/
theorem waitsOnce_iff_recovering :
    (Operation.deletePeer ⟨"alpha"⟩ ⟨"t1"⟩).Overrides
        (after RouteTable.memory .default .empty (overriding.take 2)).router ⟨"alpha"⟩ lan ⟨"t1"⟩ ∧
      ¬ overridden.WaitsOnce ⟨"alpha"⟩ lan ⟨"t1"⟩ ∧
      ∃ s, (after RouteTable.memory .default .empty recovering).router.service? ⟨"alpha"⟩ lan =
          some s ∧
        s.candidates.entries = [(⟨"t1"⟩, ⟨true, false, false, 0⟩)] ∧
        s.pendingAdds + s.pendingDeletes ≤ s.candidates.size := by
  have hoverrides : (Operation.deletePeer ⟨"alpha"⟩ ⟨"t1"⟩).Overrides
      (after RouteTable.memory .default .empty (overriding.take 2)).router ⟨"alpha"⟩ lan ⟨"t1"⟩ :=
    ⟨rfl, Option.isSome_iff_exists.1 (by decide +kernel), ⟨true, false, false, 0⟩,
      by decide +kernel, rfl⟩
  obtain ⟨-, -, hclash, -⟩ := waitsOnce_iff RouteTable.memory .default .empty (overriding.take 2)
  obtain ⟨-, -, -, hcounts⟩ := waitsOnce_iff RouteTable.memory .default .empty recovering
  have hentries : ((after RouteTable.memory .default .empty recovering).router.service?
      ⟨"alpha"⟩ lan).map (·.candidates.entries) = some [(⟨"t1"⟩, ⟨true, false, false, 0⟩)] := by
    decide +kernel
  obtain ⟨s, hs, hentries⟩ := Option.map_eq_some_iff.1 hentries
  refine ⟨hoverrides, hclash _ _ _ _ hoverrides, s, hs, hentries, (hcounts _ _ s hs).2 ?_⟩
  intro c f hf
  rw [Router.candidate?, hs, Option.bind_some] at hf
  have hmem := OrderedMap.get?_eq_some_iff.1 hf
  rw [hentries, List.mem_singleton] at hmem
  cases hmem
  rfl

end Run

end RouteKeeper
