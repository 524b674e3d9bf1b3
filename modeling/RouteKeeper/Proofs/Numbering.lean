import RouteKeeper.Proofs.History

/-!
# Claims are numbered

Every path and every service of a reachable router has a number of its own, given to it when it was
made; the numbers count from one, and none is greater than the count of claims.

## Main statements

* `Reachable.numbered` — the numbers of a reachable router are distinct.
* `Numbered.eq_of_number_eq` — claims with the same number are the same.
-/
namespace RouteKeeper

variable {σ : Type}

/-- What the number of a path or a service is found under. -/
def Claimant.key (k : Claimant) (d : Prefix) : ConnectionName ⊕ Prefix :=
  match k with
  | .path connection => .inl connection
  | .service => .inr d

theorem Claimant.key_inj {k k' : Claimant} {d : Prefix} : k.key d = k'.key d ↔ k = k' := by
  cases k <;> cases k' <;> simp [key]

namespace Router

/-- The number of a path, by its connection, or of a service, by its prefix. -/
def number? (r : Router) (n : GroupName) : ConnectionName ⊕ Prefix → Option Nat
  | .inl c => (r.path? n c).map Path.claim
  | .inr d => (r.service? n d).map Service.claim

/-- The numbers of a router are distinct and count from one, and none is greater than the count of
claims. -/
structure Numbered (r : Router) : Prop where
  pos {n : GroupName} {e : ConnectionName ⊕ Prefix} {k : Nat} : r.number? n e = some k → 1 ≤ k
  le {n : GroupName} {e : ConnectionName ⊕ Prefix} {k : Nat} : r.number? n e = some k → k ≤ r.claims
  inj {n m : GroupName} {e f : ConnectionName ⊕ Prefix} {k : Nat} :
    r.number? n e = some k → r.number? m f = some k → n = m ∧ e = f

variable {r r' : Router}

/-- A router that keeps some numbers of a router keeps them distinct. -/
theorem Numbered.of_kept (h : r.Numbered) (hclaims : r'.claims = r.claims)
    (hkept : ∀ n e k, r'.number? n e = some k → r.number? n e = some k) : r'.Numbered where
  pos hk := h.pos (hkept _ _ _ hk)
  le hk := by
    rw [hclaims]
    exact h.le (hkept _ _ _ hk)
  inj hk hk' := h.inj (hkept _ _ _ hk) (hkept _ _ _ hk')

/-- A router with one entry more, numbered next, keeps its numbers distinct. -/
theorem Numbered.of_added (h : r.Numbered) (name : GroupName) (entry : ConnectionName ⊕ Prefix)
    (hclaims : r'.claims = r.claims + 1)
    (hkept : ∀ n e k, r'.number? n e = some k →
      r.number? n e = some k ∨ (n = name ∧ e = entry ∧ k = r.claims + 1)) : r'.Numbered where
  pos {n e k} hk := by
    rcases hkept n e k hk with hold | ⟨-, -, rfl⟩
    · exact h.pos hold
    · omega
  le {n e k} hk := by
    rw [hclaims]
    rcases hkept n e k hk with hold | ⟨-, -, rfl⟩
    · have := h.le hold
      omega
    · omega
  inj {n m e f k} hk hk' := by
    rcases hkept n e k hk with hold | ⟨rfl, rfl, hnew⟩ <;>
      rcases hkept m f k hk' with hold' | ⟨rfl, rfl, hnew'⟩
    · exact h.inj hold hold'
    · have := h.le hold
      omega
    · have := h.le hold'
      omega
    · exact ⟨rfl, rfl⟩

/-! ## Operations -/

theorem Marks.number?_eq (h : r.Marks r') (n : GroupName) (e : ConnectionName ⊕ Prefix) :
    r'.number? n e = r.number? n e := by
  cases e with
  | inl c =>
    have hpath := congrArg (Option.map fun core => core.2.2) (h.path n c)
    rwa [Option.map_map, Option.map_map] at hpath
  | inr d =>
    have hservice := congrArg (Option.map fun core => core.2.2) (h.service n d)
    rwa [Option.map_map, Option.map_map] at hservice

theorem Marks.numbered (h : r.Marks r') (hn : r.Numbered) : r'.Numbered := by
  refine hn.of_kept h.claims ?_
  intro n e k hk
  rwa [h.number?_eq] at hk

theorem Numbered.addPeer (h : r.Numbered) (name : GroupName) (spec : PathSpec) :
    (r.addPeer name spec).Numbered := by
  cases husable : spec.isUsable with
  | false => rwa [addPeer_of_not_isUsable husable]
  | true =>
    have hclaims : (r.addPeer name spec).claims = r.claims + 1 := by
      rw [addPeer_of_isUsable husable]
    refine h.of_added name (.inl spec.connection) hclaims ?_
    intro n e k hk
    cases e with
    | inr d =>
      simp only [number?, service?_addPeer] at hk
      exact .inl hk
    | inl c =>
      simp only [number?, path?_addPeer husable] at hk
      split at hk
      case isFalse => exact .inl hk
      case isTrue hkey =>
        obtain ⟨rfl, rfl⟩ := hkey
        simp only [Option.map_some, Option.some.injEq, requested] at hk
        split at hk
        case h_1 p hp =>
          refine .inl ?_
          simp only [number?, hp, Option.map_some, Option.some.injEq]
          exact hk
        case h_2 => exact .inr ⟨rfl, rfl, hk.symm⟩

theorem Numbered.addService (h : r.Numbered) (name : GroupName) (destination : Prefix)
    (connection : ConnectionName) : (r.addService name destination connection).Numbered := by
  refine h.of_added name (.inr destination.normal) rfl ?_
  intro n e k hk
  cases e with
  | inl c =>
    simp only [number?, path?_addService] at hk
    exact .inl hk
  | inr d =>
    have hcore := congrArg (Option.map fun core => core.2.2)
      (service?_addService (r := r) name destination connection n d)
    rw [Option.map_map] at hcore
    have hnumber : ((r.addService name destination connection).service? n d).map Service.claim =
        some k := hk
    rw [show (fun core => core.2.2) ∘ Service.core = Service.claim from rfl, hnumber] at hcore
    split at hcore
    case isTrue hkey =>
      obtain ⟨rfl, rfl⟩ := hkey
      cases hs : r.service? n destination.normal with
      | none =>
        rw [hs] at hcore
        exact .inr ⟨rfl, rfl, Option.some.inj hcore⟩
      | some s =>
        rw [hs] at hcore
        refine .inl ?_
        rw [number?, hs]
        exact hcore.symm
    case isFalse =>
      rw [Option.map_map] at hcore
      exact .inl hcore.symm

/-! ## Reconciliations -/

section PutGroup

variable {name : GroupName} {g : Group}

theorem number?_putPath (h : r.groups.get? name = some g) {connection : ConnectionName}
    {path : Path} (hpath : g.paths.get? connection = some path) {kept : Option Path}
    (hkept : ∀ p, kept = some p → p.claim = path.claim) (n : GroupName)
    (e : ConnectionName ⊕ Prefix) (k : Nat) :
    (r.putGroup name { g with paths := g.paths.put connection kept }).number? n e = some k →
      r.number? n e = some k := by
  cases e with
  | inr d => simp only [number?, service?_putPath h, imp_self]
  | inl c =>
    simp only [number?, path?_putPath h]
    split
    case isFalse => exact id
    case isTrue hkey =>
      obtain ⟨rfl, rfl⟩ := hkey
      rw [path?_of_get? h, hpath]
      intro hk
      obtain ⟨p, hp, hclaim⟩ := Option.map_eq_some_iff.1 hk
      exact congrArg some ((hkept p hp).symm.trans hclaim)

theorem number?_putService (h : r.groups.get? name = some g) {destination : Prefix}
    {service : Service} (hservice : g.services.get? destination = some service)
    {kept : Option Service} (hkept : ∀ s, kept = some s → s.claim = service.claim) (n : GroupName)
    (e : ConnectionName ⊕ Prefix) (k : Nat) :
    (r.putGroup name
        { g with services := g.services.put destination kept }).number? n e = some k →
      r.number? n e = some k := by
  cases e with
  | inl c => simp only [number?, path?_putService h, imp_self]
  | inr d =>
    simp only [number?, service?_putService h]
    split
    case isFalse => exact id
    case isTrue hkey =>
      obtain ⟨rfl, rfl⟩ := hkey
      rw [service?_of_get? h, hservice]
      intro hk
      obtain ⟨s, hs, hclaim⟩ := Option.map_eq_some_iff.1 hk
      exact congrArg some ((hkept s hs).symm.trans hclaim)

end PutGroup

end Router

theorem Stage.Turned.numbered {T : RouteTable σ} {managed : List String} {s s' : Stage σ}
    {turn : Turn} (h : Turned T managed s turn s') (hn : s.router.Numbered) :
    s'.router.Numbered := by
  cases h with
  | noPath | noGroup | noService => exact hn
  | select hgroup =>
    refine hn.of_kept rfl ?_
    intro n e k hk
    cases e with
    | inl c => simpa only [Router.number?, Router.path?_reselect hgroup] using hk
    | inr d => simpa only [Router.number?, Router.service?_reselect hgroup] using hk
  | path hgroup hpath hturn =>
    refine hn.of_kept rfl (Router.number?_putPath hgroup hpath ?_)
    rintro p rfl
    have hclaim := congrArg Path.claim hturn.bare_eq
    exact hclaim
  | service hgroup hservice hturn =>
    refine hn.of_kept rfl (Router.number?_putService hgroup hservice ?_)
    intro s hs
    have hclaim := congrArg Service.claim (hturn.bare_eq s hs)
    exact hclaim

namespace Resolution

variable {T : RouteTable σ} {res res' : Resolution σ} {d : Prefix} {claim : Claim}

theorem Disabled.numbered (h : Disabled T res d claim res') (hn : res.router.Numbered) :
    res'.router.Numbered := by
  cases h with
  | path _ hgroup hpath =>
    refine hn.of_kept rfl (Router.number?_putPath hgroup hpath ?_)
    rintro _ ⟨⟩
    rfl
  | service _ hgroup hservice =>
    refine hn.of_kept rfl (Router.number?_putService hgroup hservice ?_)
    rintro _ ⟨⟩
    rfl

theorem Enabled.numbered (h : Enabled res d claim res') (hn : res.router.Numbered) :
    res'.router.Numbered := by
  cases h with
  | path _ hgroup hpath =>
    refine hn.of_kept rfl (Router.number?_putPath hgroup hpath ?_)
    rintro _ ⟨⟩
    rfl
  | service _ hgroup hservice =>
    refine hn.of_kept rfl (Router.number?_putService hgroup hservice ?_)
    rintro _ ⟨⟩
    rfl

end Resolution

namespace Router

variable {r : Router}

theorem Numbered.passStage (h : r.Numbered) (T : RouteTable σ) (visit : Visit) (table : σ)
    (ledger : Ledger) : (r.passStage T visit table ledger).router.Numbered :=
  passStage_induction (P := fun _ s => s.router.Numbered) h
    fun _ _ _ _ hn hturn => hturn.numbered hn

theorem Numbered.reconcileWith (h : r.Numbered) (hk : r.Keyed) (T : RouteTable σ)
    (visits : Nat → Visit) (table : σ) : (r.reconcileWith T visits table).router.Numbered := by
  have hstep : ∀ s : Reconciled σ, s.router.Keyed ∧ s.router.Numbered →
      (s.step T visits).router.Keyed ∧ (s.step T visits).router.Numbered := by
    rintro s ⟨hs, hn⟩
    refine ⟨keyed_step hs, ?_⟩
    have hturned : (s.turned T visits).router.Numbered :=
      hn.passStage T (visits s.passes) s.table s.ledger
    rw [Reconciled.router_step]
    exact resolve_induction T _ _ (keyed_passStage hs)
      (Q := fun _ _ res => res.router.Numbered) hturned
      (fun _ _ _ _ _ hn _ hdisabled => hdisabled.numbered hn)
      fun _ _ _ _ hn _ henabled => henabled.numbered hn
  have h := Reconciled.iterate_induction hstep maxPasses (s := r.unreconciled table) ⟨hk, h⟩
  rw [router_reconcileWith]
  refine h.2.of_kept (claims_pruned _) ?_
  intro n e k hk
  cases e <;> simpa [number?] using hk

theorem numbered_new (policy : Policy) : (new policy).Numbered where
  pos {n e k} h := by cases e <;> cases h
  le {n e k} h := by cases e <;> cases h
  inj {n m e f k} h := by cases e <;> cases h

/-- The numbers of a reachable router are distinct. -/
theorem Reachable.numbered (h : r.Reachable) : r.Numbered := by
  induction h with
  | new policy => exact numbered_new policy
  | addPeer _ name spec ih => exact ih.addPeer name spec
  | deletePeer _ name connection ih => exact (marks_deletePeer name connection).numbered ih
  | addService _ name destination connection ih => exact ih.addService name destination connection
  | deleteService _ name destination connection ih =>
    exact (marks_deleteService name destination connection).numbered ih
  | flush _ ih => exact marks_flush.numbered ih
  | recordRound _ results ih => exact (marks_recordRound results).numbered ih
  | reconcile hr T visits table ih => exact ih.reconcileWith hr.keyed T visits table

/-- Claims to one prefix with the same number are the same. -/
theorem Numbered.eq_of_number_eq (h : r.Numbered) (hk : r.Keyed) {d : Prefix} {c c' : Claim}
    (hc : r.Claimed d c) (hc' : r.Claimed d c') (hnumber : c.number = c'.number) : c = c' := by
  have hentry : ∀ c, r.Claimed d c → r.number? c.group (c.claimant.key d) = some c.number := by
    intro c hc
    have hclaim := (claimed_iff hk).1 hc
    rcases hclaimant : c.claimant with connection | _
    · rw [hclaimant] at hclaim
      obtain ⟨p, hp, -, -, hform⟩ := claim?_path_eq_some_iff.1 hclaim
      have hnumber : p.claim = c.number := (congrArg Claim.number hform).symm
      rw [Claimant.key, number?, hp, Option.map_some, hnumber]
    · rw [hclaimant] at hclaim
      obtain ⟨s, hs, -, hform⟩ := claim?_service_eq_some_iff.1 hclaim
      have hnumber : s.claim = c.number := (congrArg Claim.number hform).symm
      rw [Claimant.key, number?, hs, Option.map_some, hnumber]
  have hc₁ := hentry c hc
  have hc₂ := hentry c' hc'
  rw [← hnumber] at hc₂
  obtain ⟨hgroup, hkey⟩ := h.inj hc₁ hc₂
  have hclaimant := Claimant.key_inj.1 hkey
  have hfound := (claimed_iff hk).1 hc
  rw [hgroup, hclaimant, (claimed_iff hk).1 hc'] at hfound
  exact (Option.some.inj hfound).symm

end Router

end RouteKeeper
