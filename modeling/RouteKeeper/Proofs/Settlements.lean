import Mathlib.Data.Set.Card
import RouteKeeper.Proofs.Soundness

/-!
# Every settlement counts

A resolution is a list of settlements, drawn up before the first is made: claims to disable, and
then claims to enable. Each is about an entry of its own, finds that entry with the mark that it is
to turn, and turns this mark and no other. So the number that a resolution reports is the number of
entries whose mark is another one afterwards.

## Main definitions

* `Settlement` — one step of a resolution.
* `Router.settlements` — the steps of a resolution.
* `Router.disabled?` — the mark of an entry.
* `Settlement.Due` — the claim is there, with the mark that the step turns.

## Main statements

* `Router.resolve_eq_foldl` — a resolution makes its settlements one after the other.
* `Router.feasible_settlements` — the settlements are due, and of distinct entries.
* `Settlement.disabled?_carry` — what a step changes.
* `Settlement.Feasible.encard_eq` — a feasible list of steps turns as many marks as it has steps.
* `Run.sound_throughout` — all of it, for every moment of a reconciliation.
-/
namespace RouteKeeper

variable {σ : Type}

/-! ## Claims without repetition -/

/-- Where values name their keys, the names of the values are the keys. -/
theorem OrderedMap.map_values_eq_keys {κ ν : Type} [KeyOrder κ] [DecidableEq κ] (m : OrderedMap κ ν)
    {name : ν → κ} (h : ∀ k v, m.get? k = some v → name v = k) : m.values.map name = m.keys := by
  rw [values, keys, List.map_map]
  refine List.map_congr_left fun e he => ?_
  exact h e.1 e.2 (OrderedMap.get?_eq_some_iff.2 he)

namespace Router

variable {r : Router} {d : Prefix}

/-- A group makes no claim twice. -/
theorem nodup_claims (hk : r.Keyed) {n : GroupName} {g : Group} (hgroup : r.groups.get? n = some g) :
    g.claims.Nodup := by
  have hpaths : (g.paths.values.map Path.connection).Nodup := by
    rw [g.paths.map_values_eq_keys (hk.paths hgroup)]
    exact g.paths.nodup_keys
  have hservices : (g.services.values.map Service.destination).Nodup := by
    rw [g.services.map_values_eq_keys fun d s hs =>
      hk.destination (service?_eq_some_iff.2 ⟨g, hgroup, hs⟩)]
    exact g.services.nodup_keys
  rw [Group.claims, List.nodup_append']
  refine ⟨?_, ?_, ?_⟩
  · refine List.Nodup.map_on ?_ (hpaths.of_map.filter _)
    intro p hp q hq heq
    have hconnection : p.connection = q.connection := by simpa using congrArg (·.2.claimant) heq
    exact List.inj_on_of_nodup_map hpaths (List.mem_of_mem_filter hp) (List.mem_of_mem_filter hq)
      hconnection
  · refine List.Nodup.map_on ?_ (hservices.of_map.filter _)
    intro s hs t ht heq
    have hdestination : s.destination = t.destination := congrArg Prod.fst heq
    exact List.inj_on_of_nodup_map hservices (List.mem_of_mem_filter hs) (List.mem_of_mem_filter ht)
      hdestination
  · intro e hpath hservice
    obtain ⟨p, -, rfl⟩ := List.mem_map.1 hpath
    obtain ⟨s, -, heq⟩ := List.mem_map.1 hservice
    cases congrArg (·.2.claimant) heq

/-- No claim stands twice among the claims to all prefixes. -/
theorem nodup_flatMap_claims (hk : r.Keyed) : (r.groups.values.flatMap Group.claims).Nodup := by
  have hnames : (r.groups.values.map Group.name).Nodup := by
    rw [r.groups.map_values_eq_keys fun n g hgroup => hk.name hgroup]
    exact r.groups.nodup_keys
  refine List.nodup_flatMap.2 ⟨?_, (List.pairwise_map.1 hnames).imp ?_⟩
  · intro g hg
    obtain ⟨n, hgroup⟩ := OrderedMap.mem_values_iff.1 hg
    exact nodup_claims hk hgroup
  · intro g g' hne e he he'
    have hname : ∀ {g : Group}, e ∈ g.claims → e.2.group = g.name := by
      intro g he
      rcases List.mem_append.1 he with he | he <;> obtain ⟨_, -, rfl⟩ := List.mem_map.1 he <;> rfl
    exact hne ((hname he).symm.trans (hname he'))

/-- The contest about a prefix lists the claims to it, in the order of the groups. -/
theorem contest_eq {cs : List Claim} (h : r.contests.get? d = some cs) :
    cs = ((r.groups.values.flatMap Group.claims).filter (·.1 = d)).map Prod.snd := by
  have hgrouped : ∀ l : List (Prefix × Claim), ((l.foldl
      (fun (m : OrderedMap Prefix (List Claim)) e =>
        m.insert e.1 ((m.get? e.1).getD [] ++ [e.2])) .empty).get? d).getD [] =
      (l.filter (·.1 = d)).map Prod.snd := by
    intro l
    induction l using List.reverseRecOn with
    | nil => rfl
    | append_singleton l e ih =>
      rw [List.foldl_append, List.foldl_cons, List.foldl_nil, OrderedMap.get?_insert,
        List.filter_append, List.map_append]
      by_cases hd : d = e.1
      · subst hd
        simp [ih]
      · simp [hd, Ne.symm hd, ih]
  have hcs := hgrouped (r.groups.values.flatMap Group.claims)
  rw [← hcs]
  exact (congrArg (Option.getD · []) h).symm

/-- No claim stands twice in a contest. -/
theorem nodup_contest (hk : r.Keyed) {cs : List Claim} (h : r.contests.get? d = some cs) :
    cs.Nodup := by
  rw [contest_eq h]
  refine List.Nodup.map_on ?_ ((nodup_flatMap_claims hk).filter _)
  intro e he e' he' heq
  have hd : e.1 = d := by simpa using (List.mem_filter.1 he).2
  have hd' : e'.1 = d := by simpa using (List.mem_filter.1 he').2
  exact Prod.ext (hd.trans hd'.symm) heq

/-- The claims that verdicts name are named once, if each verdict names its claims once. -/
theorem nodup_verdicts (hk : r.Keyed) {α : Type} (f : List Claim → List α)
    (hf : ∀ cs : List Claim, cs ≠ [] → cs.Nodup → (f cs).Nodup) :
    (r.contests.entries.flatMap fun e => (f e.2).map fun a => (e.1, a)).Nodup := by
  have hkeys : r.contests.entries.Pairwise fun e e' => e.1 ≠ e'.1 :=
    List.pairwise_map.1 r.contests.nodup_keys
  refine List.nodup_flatMap.2 ⟨?_, hkeys.imp ?_⟩
  · rintro ⟨d, cs⟩ he
    have hcs := OrderedMap.get?_eq_some_iff.2 he
    exact (hf cs (contest_ne_nil hcs) (nodup_contest hk hcs)).map (Prod.mk_right_injective d)
  · intro e e' hne x hx hx'
    obtain ⟨a, -, rfl⟩ := List.mem_map.1 hx
    obtain ⟨a', -, heq⟩ := List.mem_map.1 hx'
    exact hne (congrArg Prod.fst heq).symm

theorem nodup_toDisable (hk : r.Keyed) : r.toDisable.Nodup := by
  rw [toDisable, List.flatMap_map]
  refine nodup_verdicts hk (fun cs => (settleClaims cs).disable) ?_
  intro cs hne hcs
  obtain ⟨w, hw⟩ := Option.ne_none_iff_exists'.1 (mt winner_eq_none_iff.1 hne)
  rw [settleClaims_of_winner hw]
  exact (hcs.filter _).map (Prod.mk_left_injective w.group)

theorem nodup_toEnable (hk : r.Keyed) : r.toEnable.Nodup := by
  rw [toEnable, List.flatMap_map]
  refine nodup_verdicts hk (fun cs => (settleClaims cs).enable) ?_
  intro cs hne hcs
  obtain ⟨w, hw⟩ := Option.ne_none_iff_exists'.1 (mt winner_eq_none_iff.1 hne)
  rw [settleClaims_of_winner hw]
  split
  · exact hcs.filter _
  · exact List.nodup_nil

/-! ## Marks -/

/-- Whether the path or the service of a group is disabled, if it is there. -/
def disabled? (r : Router) (x : GroupName × (ConnectionName ⊕ Prefix)) : Option Bool :=
  match x.2 with
  | .inl c => (r.path? x.1 c).map (·.flags.disabled)
  | .inr d => (r.service? x.1 d).map Service.disabled

variable {n : GroupName} {g : Group}

theorem disabled?_putPath (h : r.groups.get? n = some g) (c : ConnectionName) (p : Path)
    (y : GroupName × (ConnectionName ⊕ Prefix)) :
    (r.putGroup n { g with paths := g.paths.put c (some p) }).disabled? y =
      if y = (n, .inl c) then some p.flags.disabled else r.disabled? y := by
  obtain ⟨m, c' | d⟩ := y
  · simp only [disabled?, path?_putPath h, Prod.mk.injEq, Sum.inl.injEq]
    split <;> rfl
  · simp [disabled?, service?_putPath h]

theorem disabled?_putService (h : r.groups.get? n = some g) (d : Prefix) (s : Service)
    (y : GroupName × (ConnectionName ⊕ Prefix)) :
    (r.putGroup n { g with services := g.services.put d (some s) }).disabled? y =
      if y = (n, .inr d) then some s.disabled else r.disabled? y := by
  obtain ⟨m, c | d'⟩ := y
  · simp [disabled?, path?_putService h]
  · simp only [disabled?, service?_putService h, Prod.mk.injEq, Sum.inr.injEq]
    split <;> rfl

/-- The mark of a claim is that of the entry that makes it. -/
theorem disabled?_of_claim? {k : Claimant} {c : Claim} (h : r.claim? n k d = some c) :
    r.disabled? (n, k.key d) = some c.disabled := by
  cases k with
  | path connection =>
    obtain ⟨p, hp, -, -, rfl⟩ := claim?_path_eq_some_iff.1 h
    simp only [disabled?, Claimant.key, hp]
    rfl
  | service =>
    obtain ⟨s, hs, -, rfl⟩ := claim?_service_eq_some_iff.1 h
    simp only [disabled?, Claimant.key, hs]
    rfl

/-- An entry makes one claim at most. -/
theorem eq_of_claimed (hk : r.Keyed) {d d' : Prefix} {c c' : Claim} (hc : r.Claimed d c)
    (hc' : r.Claimed d' c') (hgroup : c.group = c'.group)
    (hkey : c.claimant.key d = c'.claimant.key d') : d = d' ∧ c = c' := by
  have hfound := (claimed_iff hk).1 hc
  have hfound' := (claimed_iff hk).1 hc'
  have hsame : d = d' ∧ c.claimant = c'.claimant := by
    rcases hclaimant : c.claimant with connection | _ <;>
      rcases hclaimant' : c'.claimant with connection' | _ <;>
        simp only [hclaimant, hclaimant', Claimant.key, Sum.inl.injEq, Sum.inr.injEq,
          reduceCtorEq] at hkey
    · rw [hclaimant] at hfound
      rw [hclaimant', ← hgroup, ← hkey] at hfound'
      obtain ⟨p, hp, -, rfl, -⟩ := claim?_path_eq_some_iff.1 hfound
      obtain ⟨p', hp', -, rfl, -⟩ := claim?_path_eq_some_iff.1 hfound'
      rw [hp] at hp'
      cases hp'
      exact ⟨rfl, by rw [hkey]⟩
    · exact ⟨hkey, rfl⟩
  obtain ⟨rfl, hclaimant⟩ := hsame
  rw [hgroup, hclaimant, hfound'] at hfound
  exact ⟨rfl, (Option.some.inj hfound).symm⟩

end Router

namespace Resolution

variable {T : RouteTable σ} {res res' : Resolution σ} {d : Prefix} {claim : Claim}

theorem Disabled.disabled?_eq (h : Disabled T res d claim res')
    (e : GroupName × (ConnectionName ⊕ Prefix)) :
    res'.router.disabled? e =
      if e = (claim.group, claim.claimant.key d) then some true else res.router.disabled? e := by
  cases h with
  | path hclaimant hgroup =>
    rw [Router.disabled?_putPath hgroup, hclaimant]
    rfl
  | service hclaimant hgroup =>
    rw [Router.disabled?_putService hgroup, hclaimant]
    rfl

theorem Enabled.disabled?_eq (h : Enabled res d claim res')
    (e : GroupName × (ConnectionName ⊕ Prefix)) :
    res'.router.disabled? e =
      if e = (claim.group, claim.claimant.key d) then some false else res.router.disabled? e := by
  cases h with
  | path hclaimant hgroup =>
    rw [Router.disabled?_putPath hgroup, hclaimant]
    rfl
  | service hclaimant hgroup =>
    rw [Router.disabled?_putService hgroup, hclaimant]
    rfl

end Resolution

/-! ## Settlements -/

/-- A step of a resolution: a claim to a prefix is disabled, for a group that keeps the prefix, or
enabled. -/
inductive Settlement where
  | disable (destination : Prefix) (claim : Claim) (winner : GroupName)
  | enable (destination : Prefix) (claim : Claim)

namespace Settlement

def destination : Settlement → Prefix
  | disable d .. | enable d _ => d

def claim : Settlement → Claim
  | disable _ c _ | enable _ c => c

/-- The mark that the step leaves. -/
def mark : Settlement → Bool
  | disable .. => true
  | enable .. => false

/-- The entry that makes the claim. -/
def entry (x : Settlement) : GroupName × (ConnectionName ⊕ Prefix) :=
  (x.claim.group, x.claim.claimant.key x.destination)

/-- Make a step. -/
def carry (T : RouteTable σ) (res : Resolution σ) : Settlement → Resolution σ
  | disable d c winner => res.disable T d c winner
  | enable d c => res.enable d c

/-- The claim stands in the router, with the mark that the step turns. -/
def Due (x : Settlement) (r : Router) : Prop :=
  ∃ c, r.claim? x.claim.group x.claim.claimant x.destination = some c ∧ c.disabled = !x.mark

theorem Due.disabled? {x : Settlement} {r : Router} (h : x.Due r) :
    r.disabled? x.entry = some !x.mark := by
  obtain ⟨c, hc, hmark⟩ := h
  rw [entry, Router.disabled?_of_claim? hc, hmark]

section Carry

variable {T : RouteTable σ} {res : Resolution σ} {x y : Settlement}

theorem Due.claim?_ne_none {r : Router} (h : x.Due r) :
    r.claim? x.claim.group x.claim.claimant x.destination ≠ none := by
  obtain ⟨c, hc, -⟩ := h
  rw [hc]
  exact Option.some_ne_none c

theorem sound_carry (h : x.Due res.router) (hres : res.router.Sound) :
    (x.carry T res).router.Sound := by
  cases x with
  | disable d c winner => exact (Resolution.disable_disabled T winner h.claim?_ne_none).sound hres
  | enable d c => exact (Resolution.enable_enabled h.claim?_ne_none).sound hres

/-- A step that is due leaves its mark on its entry, and no other mark. -/
theorem disabled?_carry (h : x.Due res.router) (e : GroupName × (ConnectionName ⊕ Prefix)) :
    (x.carry T res).router.disabled? e =
      if e = x.entry then some x.mark else res.router.disabled? e := by
  cases x with
  | disable d c winner =>
    exact (Resolution.disable_disabled T winner h.claim?_ne_none).disabled?_eq e
  | enable d c => exact (Resolution.enable_enabled h.claim?_ne_none).disabled?_eq e

/-- A step that is due leaves the marks of all other claims. -/
theorem claim?_bare_carry (h : x.Due res.router) (n : GroupName) (k : Claimant) (d : Prefix) :
    ((x.carry T res).router.claim? n k d).map Claim.bare = (res.router.claim? n k d).map fun c =>
      if n = x.claim.group ∧ k = x.claim.claimant ∧ d = x.destination then
        { c.bare with disabled := x.mark }
      else c.bare := by
  cases x with
  | disable e c winner =>
    exact (Resolution.disable_disabled T winner h.claim?_ne_none).claim?_bare n k d
  | enable e c => exact (Resolution.enable_enabled h.claim?_ne_none).claim?_bare n k d

/-- What is due stays due while other entries are settled. -/
theorem Due.carry (hy : y.Due res.router) (hx : x.Due res.router) (hne : y.entry ≠ x.entry) :
    y.Due (x.carry T res).router := by
  obtain ⟨c, hc, hmark⟩ := hy
  have hother : ¬ (y.claim.group = x.claim.group ∧ y.claim.claimant = x.claim.claimant ∧
      y.destination = x.destination) := by
    rintro ⟨hgroup, hclaimant, hd⟩
    exact hne (by rw [entry, entry, hgroup, hclaimant, hd])
  have hbare := claim?_bare_carry (T := T) hx y.claim.group y.claim.claimant y.destination
  rw [hc, Option.map_some, if_neg hother] at hbare
  obtain ⟨c', hc', hsame⟩ := Option.map_eq_some_iff.1 hbare
  exact ⟨c', hc', (Claim.disabled_eq_of_bare_eq hsame).trans hmark⟩

end Carry

/-! ### Series of steps -/

/-- The steps can be made one after the other: each is due, and each is of an entry of its own. -/
structure Feasible (xs : List Settlement) (r : Router) : Prop where
  nodup : (xs.map entry).Nodup
  due : ∀ x ∈ xs, x.Due r

namespace Feasible

variable {T : RouteTable σ} {res : Resolution σ} {x : Settlement} {xs : List Settlement}

theorem tail (h : Feasible (x :: xs) res.router) : Feasible xs (x.carry T res).router where
  nodup := (List.nodup_cons.1 h.nodup).2
  due y hy := by
    have hne : y.entry ≠ x.entry := by
      intro heq
      exact (List.nodup_cons.1 h.nodup).1 (heq ▸ List.mem_map_of_mem hy)
    exact (h.due y (List.mem_cons_of_mem x hy)).carry (h.due x List.mem_cons_self) hne

/-- What is still to be done is feasible at every moment, and the router is sound. -/
theorem after {before : List Settlement} (h : Feasible (before ++ xs) res.router)
    (hs : res.router.Sound) :
    Feasible xs (before.foldl (carry T) res).router ∧ (before.foldl (carry T) res).router.Sound := by
  induction before generalizing res with
  | nil => exact ⟨h, hs⟩
  | cons x before ih => exact ih h.tail (sound_carry (h.due x List.mem_cons_self) hs)

/-- Exactly the entries that are settled have another mark afterwards. -/
theorem disabled?_ne_iff (h : Feasible xs res.router) (e : GroupName × (ConnectionName ⊕ Prefix)) :
    (xs.foldl (carry T) res).router.disabled? e ≠ res.router.disabled? e ↔ e ∈ xs.map entry := by
  induction xs generalizing res with
  | nil => simp
  | cons x xs ih =>
    have hdue := h.due x List.mem_cons_self
    have hrest := ih (h.tail (T := T))
    rw [List.foldl_cons, List.map_cons, List.mem_cons]
    by_cases he : e = x.entry
    · subst he
      -- the rest of the steps leave the mark alone
      have hkept : (xs.foldl (carry T) (x.carry T res)).router.disabled? x.entry = some x.mark := by
        rw [not_ne_iff.1 (mt hrest.1 (List.nodup_cons.1 h.nodup).1), disabled?_carry hdue, if_pos rfl]
      simp [hkept, hdue.disabled?]
    · rw [disabled?_carry hdue, if_neg he] at hrest
      simp only [hrest, he, false_or]

/-- As many marks are turned as there are steps. -/
theorem encard_eq (h : Feasible xs res.router) :
    {e | (xs.foldl (carry T) res).router.disabled? e ≠ res.router.disabled? e}.encard = xs.length := by
  have hset : {e | (xs.foldl (carry T) res).router.disabled? e ≠ res.router.disabled? e} =
      ((xs.map entry).toFinset : Set (GroupName × (ConnectionName ⊕ Prefix))) := by
    ext e
    rw [List.coe_toFinset]
    exact h.disabled?_ne_iff e
  rw [hset, Set.encard_coe_eq_coe_finsetCard, List.toFinset_card_of_nodup h.nodup, List.length_map]

end Feasible

end Settlement

/-! ## Resolutions -/

namespace Router

variable {r : Router}

/-- The steps of a resolution, all drawn up in advance. -/
def settlements (r : Router) : List Settlement :=
  (r.toDisable.map fun i => .disable i.1 i.2.1 i.2.2) ++ r.toEnable.map fun j => .enable j.1 j.2

/-- A resolution makes its settlements one after the other, and counts them. -/
theorem resolve_eq_foldl (T : RouteTable σ) (r : Router) (table : σ) (ledger : Ledger) :
    r.resolve T table ledger =
      (r.settlements.length, r.settlements.foldl (Settlement.carry T) ⟨r, table, ledger⟩) := by
  rw [resolve_eq, settlements, List.foldl_append, List.foldl_map, List.foldl_map, List.length_append,
    List.length_map, List.length_map]
  rfl

theorem feasible_settlements (hk : r.Keyed) : Settlement.Feasible r.settlements r := by
  have hdisable : ∀ i ∈ r.toDisable, r.Claimed i.1 i.2.1 ∧ i.2.1.disabled = false := by
    rintro ⟨d, c, n⟩ hi
    obtain ⟨cs, w, hcs, -, hc, -⟩ := mem_toDisable_iff.1 hi
    obtain ⟨hmem, henabled, -⟩ := mem_rivals_iff.1 hc
    exact ⟨mem_contest_iff.1 ⟨cs, hcs, hmem⟩, henabled⟩
  have henable : ∀ j ∈ r.toEnable, r.Claimed j.1 j.2 ∧ j.2.disabled = true := by
    rintro ⟨d, c⟩ hj
    obtain ⟨cs, w, hcs, -, -, hmem, hdisabled, -⟩ := mem_toEnable_iff.1 hj
    exact ⟨mem_contest_iff.1 ⟨cs, hcs, hmem⟩, hdisabled⟩
  refine ⟨?_, ?_⟩
  · rw [settlements, List.map_append, List.map_map, List.map_map, List.nodup_append']
    refine ⟨?_, ?_, ?_⟩
    · refine List.Nodup.map_on ?_ (nodup_toDisable hk)
      rintro ⟨d, c, n⟩ hi ⟨d', c', n'⟩ hi' heq
      obtain ⟨hgroup, hkey⟩ := Prod.mk.inj heq
      obtain ⟨rfl, rfl⟩ := eq_of_claimed hk (hdisable _ hi).1 (hdisable _ hi').1 hgroup hkey
      obtain ⟨cs, w, hcs, hw, -, rfl⟩ := mem_toDisable_iff.1 hi
      obtain ⟨cs', w', hcs', hw', -, rfl⟩ := mem_toDisable_iff.1 hi'
      rw [hcs] at hcs'
      cases hcs'
      rw [hw] at hw'
      cases hw'
      rfl
    · refine List.Nodup.map_on ?_ (nodup_toEnable hk)
      rintro ⟨d, c⟩ hj ⟨d', c'⟩ hj' heq
      obtain ⟨hgroup, hkey⟩ := Prod.mk.inj heq
      obtain ⟨rfl, rfl⟩ := eq_of_claimed hk (henable _ hj).1 (henable _ hj').1 hgroup hkey
      rfl
    · intro e hdisabled henabled
      obtain ⟨i, hi, rfl⟩ := List.mem_map.1 hdisabled
      obtain ⟨j, hj, heq⟩ := List.mem_map.1 henabled
      obtain ⟨hgroup, hkey⟩ := Prod.mk.inj heq
      obtain ⟨-, hsame⟩ := eq_of_claimed hk (henable _ hj).1 (hdisable _ hi).1 hgroup hkey
      have hmark := (henable _ hj).2
      rw [show j.2 = i.2.1 from hsame, (hdisable _ hi).2] at hmark
      cases hmark
  · intro x hx
    rcases List.mem_append.1 hx with hx | hx
    · obtain ⟨i, hi, rfl⟩ := List.mem_map.1 hx
      exact ⟨i.2.1, (claimed_iff hk).1 (hdisable i hi).1, (hdisable i hi).2⟩
    · obtain ⟨j, hj, rfl⟩ := List.mem_map.1 hx
      exact ⟨j.2, (claimed_iff hk).1 (henable j hj).1, (henable j hj).2⟩

end Router

/-! ## Throughout a reconciliation -/

/-- The start of the resolution after the turns of the next pass. -/
def Reconciled.unresolved (T : RouteTable σ) (visits : Nat → Visit) (s : Reconciled σ) :
    Resolution σ :=
  ⟨(s.turned T visits).router, (s.turned T visits).pass.table, (s.turned T visits).pass.ledger⟩

namespace Run

/-- After every run the router is sound and furnished, and has made one claim for each operation at
most. It stays sound at every moment of a further reconciliation, in each of its passes. At each
turn of a service the plan for it can be carried out. In each resolution every step finds its entry
with the mark that it turns, and turns that mark and no other; so the number of steps counted is the
number of entries whose mark is another one afterwards. -/
theorem sound_throughout (T : RouteTable σ) (policy : Policy) (table : σ) (ops : List Operation)
    (visits : Nat → Visit) (k : Nat) :
    let run := after T policy table ops
    let s := (Reconciled.step T visits)^[k] (run.router.unreconciled run.table)
    let start := s.unresolved T visits
    (run.router.Sound ∧ run.router.Furnished ∧ run.router.claims ≤ ops.length) ∧
    (∀ before turn rest, s.router.turns (visits s.passes) = before ++ turn :: rest →
      (s.midway T before).router.Sound ∧
      ∀ n d g service, turn = .service n d → (s.midway T before).router.groups.get? n = some g →
        g.services.get? d = some service → g.Provides service (service.plan (g.desired service))) ∧
    (∀ before x rest, start.router.settlements = before ++ x :: rest →
      let res := before.foldl (Settlement.carry T) start
      res.router.Sound ∧ res.router.disabled? x.entry = some (!x.mark) ∧
      ∀ e, (x.carry T res).router.disabled? e =
        if e = x.entry then some x.mark else res.router.disabled? e) ∧
    s.resolution T visits =
      (start.router.settlements.length, start.router.settlements.foldl (Settlement.carry T) start) ∧
    {e | (s.resolution T visits).2.router.disabled? e ≠ start.router.disabled? e}.encard =
      (s.resolution T visits).1 := by
  intro run s start
  have hreachable : run.router.Reachable := reachable_after ops
  have hs : s.router.Sound := Router.Sound.steps hreachable.sound T visits k
  have hstart : start.router.Sound := hs.midway T _
  have hfeasible := Router.feasible_settlements hstart.toKeyed
  have hresolution : s.resolution T visits =
      (start.router.settlements.length,
        start.router.settlements.foldl (Settlement.carry T) start) := Router.resolve_eq_foldl ..
  refine ⟨⟨hreachable.sound, hreachable.furnished, claims_after_le T policy table ops⟩,
    ?_, ?_, hresolution, ?_⟩
  · intro before turn rest _
    have hmidway := hs.midway T before
    exact ⟨hmidway, fun n d g service _ hgroup _ => hmidway.provides hgroup service⟩
  · intro before x rest hsplit res
    rw [hsplit] at hfeasible
    obtain ⟨hrest, hsound⟩ := hfeasible.after (T := T) hstart
    have hdue := hrest.due x List.mem_cons_self
    exact ⟨hsound, hdue.disabled?, Settlement.disabled?_carry hdue⟩
  · rw [hresolution]
    dsimp only
    exact hfeasible.encard_eq

end Run

end RouteKeeper
