import RouteKeeper.Proofs.Faithful

/-!
# Tables that keep destinations apart

A table keeps destinations apart if its answer to a call depends only on the earlier calls for the
same destination. Calls for several destinations can then be made in any order: what is seen of a
destination in the end depends only on the calls for it.

## Main definitions

* `RouteTable.after` — the state after a series of calls.
* `RouteTable.Local` — what is seen of a destination depends only on the calls for it.
* `RouteTable.Separate` — the answers to calls are local.
* `RouteTable.Alike` — states after the same calls for a destination.
* `Confined` — an operation concerns one destination only.

## Main statements

* `RouteTable.confined_remove`, `confined_replace`, `confined_install` — the operations of a
  reconciliation concern one destination each.
* `RouteTable.Faithful.local_routes` — a table that does what it is told and keeps destinations
  apart has local entries.
* `RouteTable.separate_memory` — the table in memory keeps destinations apart if each of its rules
  names one.
-/
namespace RouteKeeper

variable {σ : Type}

/-- What a call leaves of the entry of its destination, given whether it succeeded. -/
def RouteCall.leaves (c : RouteCall) (ok : Bool) (entry : Option Hop) : Option Hop :=
  match c, ok with
  | .add hop, true | .replace hop, true => some hop
  | .remove interface, true => entry.filter (·.interface ≠ interface)
  | .owner, _ | _, false => entry

namespace RouteTable

/-- Make a call. Only a lookup has more to say than whether it succeeded. -/
def call (T : RouteTable σ) (d : Prefix) (s : σ) :
    RouteCall → Except Error (Option String) × σ
  | .owner => T.owner d s
  | .add hop => ((T.add d hop s).1.map fun _ => none, (T.add d hop s).2)
  | .replace hop => ((T.replace d hop s).1.map fun _ => none, (T.replace d hop s).2)
  | .remove interface => ((T.remove d interface s).1.map fun _ => none, (T.remove d interface s).2)

/-- The state after a series of calls, each with its destination. -/
def after (T : RouteTable σ) (start : σ) (calls : List (Prefix × RouteCall)) : σ :=
  calls.foldl (fun s c => (T.call c.1 s c.2).2) start

/-- What is seen of a destination depends only on the calls for it. -/
def Local {α : Type} (T : RouteTable σ) (start : σ) (look : Prefix → σ → α) : Prop :=
  ∀ calls d, look d (T.after start calls) = look d (T.after start (calls.filter (·.1 = d)))

/-- The answer to a call depends only on the earlier calls for the same destination. -/
def Separate (T : RouteTable σ) (start : σ) : Prop :=
  ∀ c, T.Local start fun d s => (T.call d s c).1

/-- States after the same calls for a destination, and any for others. -/
def Alike (T : RouteTable σ) (start : σ) (d : Prefix) (s s' : σ) : Prop :=
  ∃ calls calls', s = T.after start calls ∧ s' = T.after start calls' ∧
    calls.filter (·.1 = d) = calls'.filter (·.1 = d)

variable {T : RouteTable σ} {start s s' : σ} {d e : Prefix}

theorem after_concat (T : RouteTable σ) (start : σ) (calls : List (Prefix × RouteCall))
    (c : Prefix × RouteCall) :
    T.after start (calls ++ [c]) = (T.call c.1 (T.after start calls) c.2).2 := by
  simp [after]

theorem alike_refl (T : RouteTable σ) (start : σ) (d : Prefix) : T.Alike start d start start :=
  ⟨[], [], rfl, rfl, rfl⟩

namespace Alike

theorem symm (h : T.Alike start d s s') : T.Alike start d s' s := by
  obtain ⟨calls, calls', hs, hs', hsame⟩ := h
  exact ⟨calls', calls, hs', hs, hsame.symm⟩

/-- What is local is seen alike. -/
theorem look_eq {α : Type} {look : Prefix → σ → α} (h : T.Alike start d s s')
    (hlook : T.Local start look) : look d s = look d s' := by
  obtain ⟨calls, calls', rfl, rfl, hsame⟩ := h
  rw [hlook calls, hlook calls', hsame]

/-- A call for the destination, made in both states. -/
theorem call (h : T.Alike start d s s') (c : RouteCall) :
    T.Alike start d (T.call d s c).2 (T.call d s' c).2 := by
  obtain ⟨calls, calls', rfl, rfl, hsame⟩ := h
  refine ⟨calls ++ [(d, c)], calls' ++ [(d, c)], ?_, ?_, ?_⟩
  · rw [after_concat]
  · rw [after_concat]
  · rw [List.filter_append, List.filter_append, hsame]

/-- A call for another destination, made in one state only. -/
theorem call_of_ne (h : T.Alike start e s s') (hne : e ≠ d) (c : RouteCall) :
    T.Alike start e (T.call d s c).2 s' := by
  obtain ⟨calls, calls', rfl, rfl, hsame⟩ := h
  refine ⟨calls ++ [(d, c)], calls', ?_, rfl, ?_⟩
  · rw [after_concat]
  · rw [List.filter_append, ← hsame]
    simp [Ne.symm hne]

end Alike

end RouteTable

/-! ## Operations on one destination -/

/-- An operation concerns one destination only: it does the same in states that are alike there, and
changes nothing elsewhere. -/
structure Confined {S α : Type} (A : Prefix → S → S → Prop) (d : Prefix) (op : S → α × S) :
    Prop where
  here {s s' : S} (h : A d s s') : (op s).1 = (op s').1 ∧ A d (op s).2 (op s').2
  elsewhere {e : Prefix} {s s' : S} (hne : e ≠ d) (h : A e s s') : A e (op s).2 s'

namespace Confined

variable {S α β : Type} {A : Prefix → S → S → Prop} {d : Prefix} {op : S → α × S}

theorem pure (A : Prefix → S → S → Prop) (d : Prefix) (a : α) : Confined A d fun s => (a, s) where
  here h := ⟨rfl, h⟩
  elsewhere _ h := h

theorem map (h : Confined A d op) (f : α → β) : Confined A d fun s => (f (op s).1, (op s).2) where
  here hs := (h.here hs).imp_left (congrArg f)
  elsewhere := h.elsewhere

theorem congr (h : Confined A d op) {op' : S → α × S} (heq : ∀ s, op' s = op s) :
    Confined A d op' := by
  rwa [show op' = op from funext heq]

/-- An operation, and then one that depends on its answer. -/
theorem bind {next : α → S → β × S} (h : Confined A d op) (hnext : ∀ a, Confined A d (next a)) :
    Confined A d fun s => next (op s).1 (op s).2 where
  here {s s'} hs := by
    obtain ⟨hanswer, hafter⟩ := h.here hs
    simp only [hanswer]
    exact (hnext _).here hafter
  elsewhere hne hs := (hnext _).elsewhere hne (h.elsewhere hne hs)

theorem ite {op' : S → α × S} (c : Prop) [Decidable c] (h : Confined A d op)
    (h' : Confined A d op') : Confined A d fun s => if c then op s else op' s := by
  split
  · exact h
  · exact h'

/-- States that are alike everywhere stay so under operations on one destination. -/
theorem everywhere (h : Confined A d op) (hsymm : ∀ {e s s'}, A e s s' → A e s' s) {s s' : S}
    (halike : ∀ e, A e s s') : (op s).1 = (op s').1 ∧ ∀ e, A e (op s).2 (op s').2 := by
  refine ⟨(h.here (halike d)).1, fun e => ?_⟩
  by_cases he : e = d
  · subst he
    exact (h.here (halike e)).2
  · exact hsymm (h.elsewhere he (hsymm (h.elsewhere he (halike e))))

end Confined

namespace RouteTable

namespace Separate

variable {T : RouteTable σ} {start : σ}

theorem confined_call (hT : T.Separate start) (d : Prefix) (c : RouteCall) :
    Confined (T.Alike start) d (T.call d · c) where
  here h := ⟨h.look_eq (hT c), h.call c⟩
  elsewhere hne h := h.call_of_ne hne c

/-- Whether a call succeeded can be told from its answer. -/
theorem eq_of_map_eq {a b : Except Error Unit}
    (h : (a.map fun _ => (none : Option String)) = b.map fun _ => none) : a = b := by
  cases a <;> cases b <;> simp_all [Except.map]

theorem confined_add (hT : T.Separate start) (d : Prefix) (hop : Hop) :
    Confined (T.Alike start) d (T.add d hop) where
  here h := ((hT.confined_call d (.add hop)).here h).imp_left eq_of_map_eq
  elsewhere := (hT.confined_call d (.add hop)).elsewhere

theorem confined_replace (hT : T.Separate start) (d : Prefix) (hop : Hop) :
    Confined (T.Alike start) d (T.replace d hop) where
  here h := ((hT.confined_call d (.replace hop)).here h).imp_left eq_of_map_eq
  elsewhere := (hT.confined_call d (.replace hop)).elsewhere

theorem confined_remove (hT : T.Separate start) (d : Prefix) (interface : String) :
    Confined (T.Alike start) d (T.remove d interface) where
  here h := ((hT.confined_call d (.remove interface)).here h).imp_left eq_of_map_eq
  elsewhere := (hT.confined_call d (.remove interface)).elsewhere

/-- A route is made in at most two calls, both for its prefix. -/
theorem confined_install (hT : T.Separate start) (managed : List String) (d : Prefix) (hop : Hop) :
    Confined (T.Alike start) d (install T managed d hop) := by
  have howner : Confined (T.Alike start) d (T.owner d) := hT.confined_call d .owner
  have hmake : ∀ answer : Except Error (Option String), Confined (T.Alike start) d fun s =>
      match answer with
      | .error e => (.error e, s)
      | .ok none => ((T.add d hop s).1.map fun _ => Outcome.added, (T.add d hop s).2)
      | .ok (some interface) =>
        if managed.contains interface then
          ((T.replace d hop s).1.map fun _ => .replaced, (T.replace d hop s).2)
        else (.error (.route (.externalConflict d.text interface)), s) := by
    intro answer
    rcases answer with e | _ | interface
    · exact .pure _ d _
    · exact (hT.confined_add d hop).map _
    · exact .ite _ ((hT.confined_replace d hop).map _) (.pure _ d _)
  refine (howner.bind hmake).congr fun s => ?_
  unfold install
  rcases T.owner d s with ⟨e | _ | interface, s⟩
  · rfl
  · rcases hadd : T.add d hop s with ⟨e | _, s'⟩ <;> simp only [hadd, Except.map]
  · rcases hreplace : T.replace d hop s with ⟨e | _, s'⟩ <;> simp only [hreplace, Except.map]

end Separate

/-! ## Entries of the table -/

section Entries

variable {T : RouteTable σ} {start : σ} {routes : σ → OrderedMap Prefix Hop}

/-- A call that succeeds does to the entry of its destination what it says, and nothing else is
done to any entry. -/
theorem Faithful.get?_call (hT : T.Faithful routes) (d : Prefix) (s : σ) (c : RouteCall)
    (e : Prefix) :
    (routes (T.call d s c).2).get? e =
      if e = d then c.leaves (T.call d s c).1.isOk ((routes s).get? d)
      else (routes s).get? e := by
  have hsame : (if e = d then (routes s).get? d else (routes s).get? e) = (routes s).get? e := by
    split
    case isTrue he => rw [he]
    case isFalse => rfl
  cases c with
  | owner => simp only [call, RouteCall.leaves, (hT.owner rfl).1, hsame]
  | add hop =>
    rcases hcall : T.add d hop s with ⟨e | _, s'⟩
    · simp [call, hcall, hT.add_error hcall, Except.map, Except.isOk, Except.toBool,
        RouteCall.leaves, hsame]
    · simp [call, hcall, hT.add_ok hcall, Except.map, Except.isOk, Except.toBool,
        RouteCall.leaves, OrderedMap.get?_insert]
  | replace hop =>
    rcases hcall : T.replace d hop s with ⟨e | _, s'⟩
    · simp [call, hcall, hT.replace_error hcall, Except.map, Except.isOk, Except.toBool,
        RouteCall.leaves, hsame]
    · simp [call, hcall, hT.replace_ok hcall, Except.map, Except.isOk, Except.toBool,
        RouteCall.leaves, OrderedMap.get?_insert]
  | remove interface =>
    rcases hcall : T.remove d interface s with ⟨e | _, s'⟩
    · simp [call, hcall, hT.remove_error hcall, Except.map, Except.isOk, Except.toBool,
        RouteCall.leaves, hsame]
    · simp only [call, hcall, hT.get?_remove_ok hcall, Except.map, Except.isOk, Except.toBool,
        RouteCall.leaves]
      by_cases he : e = d
      · subst he
        cases (routes s).get? e with
        | none => simp
        | some hop => by_cases hi : hop.interface = interface <;> simp [hi, Option.filter_some]
      · simp [he]

/-- A table that does what it is told and keeps destinations apart has local entries. -/
theorem Faithful.local_routes (hT : T.Faithful routes) (hseparate : T.Separate start) :
    T.Local start fun d s => (routes s).get? d := by
  intro calls d
  induction calls using List.reverseRecOn with
  | nil => rfl
  | append_singleton calls c ih =>
    have hanswer := hseparate c.2 calls c.1
    simp only at ih hanswer ⊢
    rw [List.filter_append, after_concat, hT.get?_call]
    by_cases hc : c.1 = d
    · subst hc
      rw [if_pos rfl, hanswer, ih]
      simp only [List.filter_cons, decide_true, if_true, List.filter_nil, after_concat,
        hT.get?_call]
    · rw [if_neg (Ne.symm hc), ih]
      simp [hc]

end Entries

/-- A table keeps destinations apart if it has a view of each destination that tells the answers to
calls for it, and is changed by these calls only and in a way that it tells. -/
theorem separate_of_view {β : Type} {T : RouteTable σ} {start : σ} {P : σ → Prop}
    (view : Prefix → σ → β) (hstart : P start) (hkeep : ∀ {d s} c, P s → P (T.call d s c).2)
    (helsewhere : ∀ {d e s} c, P s → e ≠ d → view e (T.call d s c).2 = view e s)
    (hhere : ∀ {d s s'} c, P s → P s' → view d s = view d s' →
      (T.call d s c).1 = (T.call d s' c).1 ∧
        view d (T.call d s c).2 = view d (T.call d s' c).2) : T.Separate start := by
  have hafter : ∀ calls, P (T.after start calls) := by
    intro calls
    induction calls using List.reverseRecOn with
    | nil => exact hstart
    | append_singleton calls c ih =>
      rw [after_concat]
      exact hkeep c.2 ih
  have hview : T.Local start view := by
    intro calls d
    induction calls using List.reverseRecOn with
    | nil => rfl
    | append_singleton calls c ih =>
      rw [List.filter_append, after_concat]
      by_cases hc : c.1 = d
      · subst hc
        simp only [List.filter_cons, decide_true, if_true, List.filter_nil, after_concat]
        exact (hhere c.2 (hafter _) (hafter _) ih).2
      · rw [helsewhere c.2 (hafter _) (Ne.symm hc), ih]
        simp [hc]
  intro c calls d
  exact (hhere c (hafter _) (hafter _) (hview calls d)).1

/-! ## The table in memory -/

section Memory

variable {call : CallKind} {d e : Prefix} {rules rules' : List FaultRule} {rule : FaultRule}

/-- The rules that name a destination. -/
def FaultRule.naming (d : Prefix) (rules : List FaultRule) : List FaultRule :=
  rules.filter (·.destination = some d)

/-- Each rule names a destination. -/
def FaultRule.Named (rules : List FaultRule) : Prop := ∀ r ∈ rules, r.destination ≠ none

/-- Firing a rule changes nothing of what the rules name. -/
theorem FaultRule.destinations_fire (h : fire call d rules = some (rule, rules')) :
    rules'.map FaultRule.destination = rules.map FaultRule.destination := by
  induction rules generalizing rules' with
  | nil => cases h
  | cons r rest ih =>
    unfold fire at h
    split at h
    · cases h
      rfl
    · obtain ⟨⟨hit, rest'⟩, hrest, heq⟩ := Option.map_eq_some_iff.1 h
      cases heq
      rw [List.map_cons, List.map_cons, ih hrest]

theorem FaultRule.Named.fire (hnamed : Named rules) (h : fire call d rules = some (rule, rules')) :
    Named rules' := by
  have hall : ∀ o ∈ rules.map FaultRule.destination, o ≠ none := by simpa [Named] using hnamed
  rw [← destinations_fire h] at hall
  simpa [Named] using hall

/-- A rule that names a destination applies to no other. -/
theorem FaultRule.destination_of_applies (hnamed : rule.destination ≠ none)
    (h : rule.applies call d = true) : rule.destination = some d := by
  obtain ⟨e, he⟩ := Option.ne_none_iff_exists'.1 hnamed
  simp only [applies, he, Option.all_some, Bool.and_eq_true, decide_eq_true_eq] at h
  rw [he, h.1.2]

/-- Which rule fires is told by those that name the destination. -/
theorem FaultRule.fire_naming (hnamed : Named rules) (call : CallKind) (d : Prefix) :
    fire call d (naming d rules) =
      (fire call d rules).map fun hit => (hit.1, naming d hit.2) := by
  induction rules with
  | nil => rfl
  | cons r rest ih =>
    have hrest := ih fun r hr => hnamed r (List.mem_cons_of_mem _ hr)
    by_cases hd : r.destination = some d
    · by_cases happlies : r.applies call d = true
      · simp [naming, fire, hd, happlies]
      · simp only [naming, List.filter_cons, hd, decide_true, if_true, fire,
          if_neg happlies] at hrest ⊢
        rw [hrest]
        cases fire call d rest <;> simp [hd]
    · have happlies : ¬ r.applies call d = true :=
        fun h => hd (destination_of_applies (hnamed r List.mem_cons_self) h)
      simp only [naming, List.filter_cons, hd, decide_false, fire, if_neg happlies] at hrest ⊢
      rw [if_neg (by simp), hrest]
      cases fire call d rest <;> simp [hd]

/-- A rule that fires at one destination is not used up at another. -/
theorem FaultRule.naming_of_fire (hnamed : Named rules) (hne : e ≠ d)
    (h : fire call d rules = some (rule, rules')) : naming e rules' = naming e rules := by
  induction rules generalizing rules' with
  | nil => cases h
  | cons r rest ih =>
    unfold fire at h
    split at h
    case isTrue happlies =>
      have hd := destination_of_applies (hnamed r List.mem_cons_self) happlies
      cases h
      simp [naming, hd, Ne.symm hne]
    case isFalse =>
      obtain ⟨⟨hit, rest'⟩, hrest, heq⟩ := Option.map_eq_some_iff.1 h
      cases heq
      have hsame := ih (fun r hr => hnamed r (List.mem_cons_of_mem _ hr)) hrest
      simp only [naming, List.filter_cons] at hsame ⊢
      rw [hsame]

/-- The route for a destination, and the rules that name it. -/
def Memory.view (d : Prefix) (m : Memory) : Option Hop × List FaultRule :=
  (m.routes.get? d, FaultRule.naming d m.rules)

section Guarded

variable {α : Type} {interface : String} {m m' : Memory}
  {act : OrderedMap Prefix Hop → α × OrderedMap Prefix Hop}

theorem named_guarded (h : FaultRule.Named m.rules) :
    FaultRule.Named (Memory.guarded call d interface act m).2.rules := by
  unfold Memory.guarded
  split
  case h_1 hfire => exact h.fire hfire
  case h_2 => exact h

theorem view_guarded_of_ne (h : FaultRule.Named m.rules) (hne : e ≠ d)
    (hact : ∀ routes, (act routes).2.get? e = routes.get? e) :
    Memory.view e (Memory.guarded call d interface act m).2 = Memory.view e m := by
  unfold Memory.guarded
  split
  case h_1 hfire => simp only [Memory.view, FaultRule.naming_of_fire h hne hfire]
  case h_2 => simp only [Memory.view, hact]

theorem guarded_of_view (h : FaultRule.Named m.rules) (h' : FaultRule.Named m'.rules)
    (hview : Memory.view d m = Memory.view d m')
    (hact : ∀ {routes routes' : OrderedMap Prefix Hop}, routes.get? d = routes'.get? d →
      (act routes).1 = (act routes').1 ∧ (act routes).2.get? d = (act routes').2.get? d) :
    (Memory.guarded call d interface act m).1 = (Memory.guarded call d interface act m').1 ∧
      Memory.view d (Memory.guarded call d interface act m).2 =
        Memory.view d (Memory.guarded call d interface act m').2 := by
  obtain ⟨hroute, hrules⟩ := Prod.mk.inj hview
  have hfire := congrArg (FaultRule.fire call d) hrules
  rw [FaultRule.fire_naming h, FaultRule.fire_naming h'] at hfire
  unfold Memory.guarded
  cases hhit : FaultRule.fire call d m.rules with
  | none =>
    rw [hhit, Option.map_none, eq_comm, Option.map_eq_none_iff] at hfire
    simp only [hfire, Memory.view, hrules, hact hroute, and_self]
  | some hit =>
    rw [hhit, Option.map_some, eq_comm, Option.map_eq_some_iff] at hfire
    obtain ⟨hit', hhit', heq⟩ := hfire
    obtain ⟨hrule, hnaming⟩ := Prod.mk.inj heq
    simp only [hhit', Memory.view, hrule, hnaming, hroute, and_self]

end Guarded

/-- The table in memory keeps destinations apart if each of its rules names one. -/
theorem separate_memory {m : Memory} (h : FaultRule.Named m.rules) : memory.Separate m := by
  refine separate_of_view (P := fun m => FaultRule.Named m.rules) Memory.view h ?_ ?_ ?_
  · intro d m c hm
    cases c <;> simp only [RouteTable.call, memory] <;> exact named_guarded hm
  · intro d e m c hm hne
    cases c with
    | owner =>
      simp only [RouteTable.call, memory]
      exact view_guarded_of_ne hm hne fun _ => rfl
    | add hop | replace hop =>
      simp only [RouteTable.call, memory]
      exact view_guarded_of_ne hm hne fun routes => routes.get?_insert_of_ne hop hne
    | remove interface =>
      simp only [RouteTable.call, memory]
      refine view_guarded_of_ne hm hne fun routes => ?_
      split
      · exact routes.get?_erase_of_ne hne
      · rfl
  · intro d m m' c hm hm' hview
    cases c with
    | owner =>
      simp only [RouteTable.call, memory]
      refine guarded_of_view hm hm' hview ?_
      intro routes routes' h
      exact ⟨by rw [h], h⟩
    | add hop | replace hop =>
      simp only [RouteTable.call, memory]
      refine (guarded_of_view hm hm' hview ?_).imp_left (congrArg (Except.map _))
      intro routes routes' h
      simp
    | remove interface =>
      simp only [RouteTable.call, memory]
      refine (guarded_of_view hm hm' hview ?_).imp_left (congrArg (Except.map _))
      intro routes routes' h
      refine ⟨rfl, ?_⟩
      simp only [h]
      split <;> simp [h]

end Memory

end RouteTable

end RouteKeeper
