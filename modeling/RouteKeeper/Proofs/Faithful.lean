import RouteKeeper.Proofs.Routes
import RouteKeeper.RouteTable.Memory

/-!
# Tables that do what they are told

Most of what is proved of a router holds over any route table. What becomes of the entries of a
table can only be said of one that keeps to the description of its operations: a call that succeeds
does to the entry of its prefix what it says, one that fails does nothing, and when a call fails is
left open.

## Main definitions

* `RouteTable.Faithful` — a table that does what it is told.

## Main statements

* `RouteTable.Faithful.install_ok` — a route is put in place only where there is none, or one
  through a managed interface.
* `RouteTable.faithful_memory` — the table in memory does what it is told, whatever its rules say.
-/
namespace RouteKeeper

variable {σ : Type}

namespace RouteTable

/-- The table does what it is told to its routes, unless a call fails. -/
structure Faithful (T : RouteTable σ) (routes : σ → OrderedMap Prefix Hop) : Prop where
  owner {d : Prefix} {s s' : σ} {answer : Except Error (Option String)}
    (h : T.owner d s = (answer, s')) : routes s' = routes s ∧
      ∀ o, answer = .ok o → o = ((routes s).get? d).map Hop.interface
  add_ok {d : Prefix} {hop : Hop} {s s' : σ} (h : T.add d hop s = (.ok (), s')) :
    routes s' = (routes s).insert d hop
  add_error {d : Prefix} {hop : Hop} {s s' : σ} {e : Error} (h : T.add d hop s = (.error e, s')) :
    routes s' = routes s
  replace_ok {d : Prefix} {hop : Hop} {s s' : σ} (h : T.replace d hop s = (.ok (), s')) :
    routes s' = (routes s).insert d hop
  replace_error {d : Prefix} {hop : Hop} {s s' : σ} {e : Error}
    (h : T.replace d hop s = (.error e, s')) : routes s' = routes s
  /-- A route goes only if it is through the interface that is given. -/
  remove_ok {d : Prefix} {i : String} {s s' : σ} (h : T.remove d i s = (.ok (), s')) :
    routes s' = if ((routes s).get? d).any (·.interface = i) then (routes s).erase d else routes s
  remove_error {d : Prefix} {i : String} {s s' : σ} {e : Error}
    (h : T.remove d i s = (.error e, s')) : routes s' = routes s

namespace Faithful

variable {T : RouteTable σ} {routes : σ → OrderedMap Prefix Hop} {managed : List String}
  {d : Prefix} {hop : Hop} {s s' : σ}

/-- The entries after a removal. -/
theorem get?_remove_ok (hT : T.Faithful routes) {i : String}
    (h : T.remove d i s = (.ok (), s')) (e : Prefix) :
    (routes s').get? e =
      if e = d ∧ ((routes s).get? d).any (·.interface = i) = true then none
      else (routes s).get? e := by
  rw [hT.remove_ok h]
  by_cases hmatch : ((routes s).get? d).any (·.interface = i) = true
  · rw [if_pos hmatch, OrderedMap.get?_erase]
    simp only [hmatch, and_true]
  · rw [if_neg hmatch, if_neg fun hkey => hmatch hkey.2]

/-- A route is put in place only where there is none, or one through a managed interface. -/
theorem install_ok (hT : T.Faithful routes) {outcome : Outcome}
    (h : install T managed d hop s = (.ok outcome, s')) :
    routes s' = (routes s).insert d hop ∧
      ∀ old, (routes s).get? d = some old → old.interface ∈ managed := by
  unfold install at h
  rcases howner : T.owner d s with ⟨e | _ | interface, s₁⟩
  · rw [howner] at h
    cases h
  · obtain ⟨hsame, hanswer⟩ := hT.owner howner
    have hnone := (Option.map_eq_none_iff.1 (hanswer none rfl).symm)
    rcases hadd : T.add d hop s₁ with ⟨e | _, s₂⟩
    · simp only [howner, hadd] at h
      cases h
    · simp only [howner, hadd] at h
      cases h
      refine ⟨by rw [hT.add_ok hadd, hsame], ?_⟩
      intro old hold
      rw [hnone] at hold
      cases hold
  · obtain ⟨hsame, hanswer⟩ := hT.owner howner
    by_cases hmanaged : managed.contains interface = true
    · rcases hreplace : T.replace d hop s₁ with ⟨e | _, s₂⟩
      · simp only [howner, if_pos hmanaged, hreplace] at h
        cases h
      · simp only [howner, if_pos hmanaged, hreplace] at h
        cases h
        refine ⟨by rw [hT.replace_ok hreplace, hsame], ?_⟩
        intro old hold
        have hinterface := hanswer _ rfl
        rw [hold] at hinterface
        cases hinterface
        exact List.contains_iff_mem.1 hmanaged
    · simp only [howner, if_neg hmanaged] at h
      cases h

/-- A route that cannot be put in place leaves the entries. -/
theorem install_error (hT : T.Faithful routes) {e : Error}
    (h : install T managed d hop s = (.error e, s')) : routes s' = routes s := by
  unfold install at h
  rcases howner : T.owner d s with ⟨e | _ | interface, s₁⟩
  · simp only [howner] at h
    cases h
    exact (hT.owner howner).1
  · have hsame := (hT.owner howner).1
    rcases hadd : T.add d hop s₁ with ⟨e | _, s₂⟩
    · simp only [howner, hadd] at h
      cases h
      rw [hT.add_error hadd, hsame]
    · simp only [howner, hadd] at h
      cases h
  · have hsame := (hT.owner howner).1
    by_cases hmanaged : managed.contains interface = true
    · rcases hreplace : T.replace d hop s₁ with ⟨e | _, s₂⟩
      · simp only [howner, if_pos hmanaged, hreplace] at h
        cases h
        rw [hT.replace_error hreplace, hsame]
      · simp only [howner, if_pos hmanaged, hreplace] at h
        cases h
    · simp only [howner, if_neg hmanaged] at h
      cases h
      exact hsame

/-- A route that is put in place, or moved, is what is then there. -/
theorem placed_ok (hT : T.Faithful routes)
    (h : (∃ outcome, install T managed d hop s = (.ok outcome, s')) ∨
      T.replace d hop s = (.ok (), s')) : routes s' = (routes s).insert d hop := by
  rcases h with ⟨outcome, hinstall⟩ | hreplace
  · exact (hT.install_ok hinstall).1
  · exact hT.replace_ok hreplace

/-- An attempt that fails leaves the entries. -/
theorem failedCall (hT : T.Faithful routes) {e : Error} {action : Action}
    (h : Stage.FailedCall T managed d s e s' action) : routes s' = routes s := by
  cases h with
  | remove hcall => exact hT.remove_error hcall
  | install hcall => exact hT.install_error hcall
  | replace hcall => exact hT.replace_error hcall

end Faithful

/-! ## The table in memory -/

section Memory

variable {α : Type} {call : CallKind} {d : Prefix} {interface : String}
  {act : OrderedMap Prefix Hop → α × OrderedMap Prefix Hop} {m m' : Memory}

theorem guarded_ok {a : α} (h : Memory.guarded call d interface act m = (.ok a, m')) :
    a = (act m.routes).1 ∧ m'.routes = (act m.routes).2 := by
  unfold Memory.guarded at h
  split at h
  · cases h
  · cases h
    exact ⟨rfl, rfl⟩

theorem guarded_error {e : Error} (h : Memory.guarded call d interface act m = (.error e, m')) :
    m'.routes = m.routes := by
  unfold Memory.guarded at h
  split at h
  · cases h
    rfl
  · cases h

/-- The table in memory does what it is told, whenever no rule lets it fail. -/
theorem faithful_memory : memory.Faithful Memory.routes where
  owner {d s s' answer} h := by
    simp only [memory] at h
    cases answer with
    | error e => exact ⟨guarded_error h, fun o ho => by cases ho⟩
    | ok interface =>
      obtain ⟨hinterface, hroutes⟩ := guarded_ok h
      refine ⟨hroutes, ?_⟩
      rintro o ⟨⟩
      exact hinterface
  add_ok h := by
    simp only [memory] at h
    exact (guarded_ok h).2
  add_error h := by
    simp only [memory] at h
    exact guarded_error h
  replace_ok h := by
    simp only [memory] at h
    exact (guarded_ok h).2
  replace_error h := by
    simp only [memory] at h
    exact guarded_error h
  remove_ok h := by
    simp only [memory] at h
    exact (guarded_ok h).2
  remove_error h := by
    simp only [memory] at h
    exact guarded_error h

end Memory

end RouteTable

end RouteKeeper
