import RouteKeeper.Proofs.Resolve

/-!
# What is called for

A journal holds the calls to a table and whether they failed. A turn, and a withdrawal of a route,
adds calls to it, all of them for the prefix of the entry, and takes none out.

## Main definitions

* `Journal.Adds` — a later journal has more calls, for one prefix.

## Main statements

* `PathTurn.adds`, `ServiceTurn.adds`, `Withdrawal.adds` — calls are for the prefix of the entry.
* `Stage.Turned.journal_subset` — no call is forgotten.
-/
namespace RouteKeeper

variable {σ : Type}

/-- From one journal to a later one calls were added, all of them for one prefix. -/
def Journal.Adds (j j' : Journal) (d : Prefix) : Prop :=
  ∃ calls : Journal, j' = calls ++ j ∧ ∀ e ∈ calls, e.1 = d

namespace Journal

variable {j j' j'' : Journal} {d : Prefix}

theorem adds_refl (j : Journal) (d : Prefix) : j.Adds j d :=
  ⟨[], rfl, fun _ he => absurd he List.not_mem_nil⟩

theorem adds_cons (j : Journal) (d : Prefix) (call : RouteCall) (failed : Bool) :
    j.Adds ((d, call, failed) :: j) d :=
  ⟨[(d, call, failed)], rfl, by simp⟩

theorem Adds.trans (h : j.Adds j' d) (h' : j'.Adds j'' d) : j.Adds j'' d := by
  obtain ⟨calls, rfl, hcalls⟩ := h
  obtain ⟨calls', rfl, hcalls'⟩ := h'
  refine ⟨calls' ++ calls, (List.append_assoc ..).symm, fun e he => ?_⟩
  rcases List.mem_append.1 he with he | he
  · exact hcalls' e he
  · exact hcalls e he

theorem Adds.subset (h : j.Adds j' d) : j ⊆ j' := by
  obtain ⟨calls, rfl, -⟩ := h
  exact List.subset_append_right calls j

end Journal

variable {T : RouteTable σ} {d : Prefix} {i : String} {s s' : σ × Journal}

/-! ## Single calls -/

theorem journal_of_remove_ok (h : T.journaled.remove d i s = (.ok (), s')) :
    s'.2 = (d, .remove i, false) :: s.2 := by
  simp only [RouteTable.journaled] at h
  obtain ⟨hanswer, hs⟩ := Prod.mk.inj h
  rw [← hs, hanswer]

theorem journal_of_remove_error {e : Error} (h : T.journaled.remove d i s = (.error e, s')) :
    s'.2 = (d, .remove i, true) :: s.2 := by
  simp only [RouteTable.journaled] at h
  obtain ⟨hanswer, hs⟩ := Prod.mk.inj h
  rw [← hs, hanswer]

theorem journal_of_replace_error {hop : Hop} {e : Error}
    (h : T.journaled.replace d hop s = (.error e, s')) :
    s'.2 = (d, .replace hop, true) :: s.2 := by
  simp only [RouteTable.journaled] at h
  obtain ⟨hanswer, hs⟩ := Prod.mk.inj h
  rw [← hs, hanswer]

theorem adds_of_remove {answer : Except Error Unit}
    (hcall : T.journaled.remove d i s = (answer, s')) : s.2.Adds s'.2 d := by
  obtain rfl : (T.journaled.remove d i s).2 = s' := congrArg Prod.snd hcall
  exact Journal.adds_cons _ d _ _

theorem adds_of_replace {hop : Hop} {answer : Except Error Unit}
    (hcall : T.journaled.replace d hop s = (answer, s')) : s.2.Adds s'.2 d := by
  obtain rfl : (T.journaled.replace d hop s).2 = s' := congrArg Prod.snd hcall
  exact Journal.adds_cons _ d _ _

/-- A route is made with calls for its prefix. -/
theorem adds_of_install {managed : List String} {hop : Hop} {answer : Except Error Outcome}
    (hcall : install T.journaled managed d hop s = (answer, s')) : s.2.Adds s'.2 d := by
  obtain rfl : (install T.journaled managed d hop s).2 = s' := congrArg Prod.snd hcall
  have howner : s.2.Adds (T.journaled.owner d s).2.2 d := Journal.adds_cons _ d _ _
  unfold install
  rcases hlooked : T.journaled.owner d s with ⟨e | _ | interface, s₁⟩ <;> rw [hlooked] at howner
  · exact howner
  · have hadd : s₁.2.Adds (T.journaled.add d hop s₁).2.2 d := Journal.adds_cons _ d _ _
    rcases hmade : T.journaled.add d hop s₁ with ⟨e | _, s₂⟩ <;> rw [hmade] at hadd <;>
      simpa only [hmade] using howner.trans hadd
  · simp only
    split
    · rcases hmade : T.journaled.replace d hop s₁ with ⟨e | _, s₂⟩ <;>
        simpa only [hmade] using howner.trans (adds_of_replace hmade)
    · exact howner

/-! ## Turns -/

/-- A path's turn calls for its prefix only. -/
theorem PathTurn.adds {managed : List String} {group : GroupName}
    {pass pass' : Pass (σ × Journal)} {path : Path} {kept : Option Path}
    (h : PathTurn T.journaled managed group pass path kept pass') :
    pass.table.2.Adds pass'.table.2 path.destination := by
  cases h with
  | drop | idle => exact Journal.adds_refl ..
  | remove _ _ hcall =>
    rw [Pass.table_disown, Pass.table_tried]
    exact adds_of_remove hcall
  | removeFailed _ _ hcall =>
    rw [Pass.table_tried]
    exact adds_of_remove hcall
  | install _ _ _ _ hcall =>
    rw [Pass.table_own, Pass.table_tried]
    exact adds_of_install hcall
  | installFailed _ _ _ _ hcall =>
    rw [Pass.table_tried]
    exact adds_of_install hcall

/-- A service's turn calls for its prefix only. -/
theorem ServiceTurn.adds {managed : List String} {g : Group}
    {pass pass' : Pass (σ × Journal)} {service : Service} {kept : Option Service}
    (h : ServiceTurn T.journaled managed g pass service kept pass') :
    pass.table.2.Adds pass'.table.2 service.destination := by
  cases h with
  | keep | blocked => exact Journal.adds_refl ..
  | clear _ hcall =>
    rw [table_finishService_ok]
    exact adds_of_remove hcall
  | clearFailed _ hcall =>
    rw [Pass.table_tried]
    exact adds_of_remove hcall
  | install _ _ _ hcall =>
    rw [table_finishService_ok]
    exact adds_of_install hcall
  | installFailed _ _ _ hcall =>
    rw [Pass.table_tried]
    exact adds_of_install hcall
  | move _ _ hcall =>
    rw [table_finishService_ok]
    exact adds_of_replace hcall
  | moveFailed _ _ hcall =>
    rw [Pass.table_tried]
    exact adds_of_replace hcall

/-- The withdrawal of a route calls for its prefix only. -/
theorem Withdrawal.adds {claim : Claim} {table table' : σ × Journal}
    {attempts attempts' : List Attempt} {route : Option String} {stays : Bool}
    (h : Withdrawal T.journaled claim d table attempts route stays table' attempts') :
    table.2.Adds table'.2 d := by
  cases h with
  | absent => exact Journal.adds_refl ..
  | removed hcall | failed hcall => exact adds_of_remove hcall

/-- A turn takes no call out of the journal. -/
theorem Stage.Turned.journal_subset {managed : List String} {stage stage' : Stage (σ × Journal)}
    {turn : Turn} (h : Turned T.journaled managed stage turn stage')
    (hk : stage.router.Keyed) : stage.pass.table.2 ⊆ stage'.pass.table.2 := by
  cases turn with
  | path n c =>
    rcases h.path_cases hk with ⟨-, rfl⟩ | ⟨p, kept, -, hturn, -⟩
    · exact List.Subset.refl _
    · exact hturn.adds.subset
  | select n =>
    cases h with
    | noGroup | select => exact List.Subset.refl _
  | service n d =>
    rcases h.service_cases with ⟨-, rfl⟩ | ⟨g, s, kept, -, -, hturn, -⟩
    · exact List.Subset.refl _
    · exact hturn.adds.subset

end RouteKeeper
