import Mathlib.Logic.Function.Basic
import RouteKeeper.Proofs.CommandLine
import RouteKeeper.Proofs.OrderedMap
import RouteKeeper.Proofs.Separation

/-!
# The route table behind a command

What the reconciler relies on in a route table, the table behind the `ip` command offers as far as
the command does: what it is told to replace or remove it has replaced or removed when it says so,
and it tells which interface has a route. Adding is different. The command refuses to add a route
that is there already, whichever interface it leads through, and that refusal counts as a success;
so an addition that succeeds leaves a route of another interface where it is. A lookup before the
addition rules that out only while nobody else writes.

## Main definitions

* `RouteCall.yields` — the interface that has a route after a call.
* `RouteTable.IpRoute` — what is assumed of the command.
* `RouteTable.play` — calls, and changes that somebody else makes.
* `RouteTable.ip` — a command that keeps to what is assumed.

## Main statements

* `RouteTable.IpRoute.call_effect` — what one call does to the table of the command.
* `RouteTable.IpRoute.add_after_lookup`, `RouteTable.IpRoute.install_ok` — a route that is made
  after a lookup is in place.
* `RouteTable.system_contract` — what the answers mean, whatever has happened to the table before.
-/
namespace RouteKeeper

open Text

variable {σ : Type}

/-! ## The command -/

/-- The interface that has the route for a prefix after a call, given whether the call succeeded: an
addition keeps a route that is there. -/
def RouteCall.yields (c : RouteCall) (ok : Bool) (holder : Option String) : Option String :=
  match c, ok with
  | .add hop, true => some (holder.getD hop.interface)
  | .replace hop, true => some hop.interface
  | .remove interface, true => holder.filter (· ≠ interface)
  | .owner, _ | _, false => holder

/-- A call that fails changes nothing. -/
@[simp] theorem RouteCall.yields_false (c : RouteCall) (holder : Option String) :
    c.yields false holder = holder := by
  cases c <;> rfl

/-- A call that has its effect if it succeeds, and otherwise none, changes a table as it says. -/
theorem RouteCall.yields_of_effect {c : RouteCall} {answer : Except Error Unit} {text : String}
    {before after : String → Option String}
    (heffect : answer = .ok () ∧ after = Function.update before text (c.yields true (before text)) ∨
      answer ≠ .ok () ∧ after = before) :
    after = Function.update before text
      (c.yields (answer.map fun _ => (none : Option String)).isOk (before text)) := by
  rcases heffect with ⟨rfl, hafter⟩ | ⟨hfailed, hafter⟩
  · exact hafter
  · cases answer with
    | ok => exact absurd rfl hfailed
    | error e =>
      rw [hafter, Except.map, Except.isOk, Except.toBool, yields_false, Function.update_eq_self]

/-- A call leaves what it says, unless it is an addition where another interface has a route. -/
theorem RouteCall.yields_eq_leaves_iff {c : RouteCall} {ok : Bool} {entry : Option Hop} :
    c.yields ok (entry.map Hop.interface) = (c.leaves ok entry).map Hop.interface ↔
      ∀ hop, c = .add hop → ok = true → ∀ old, entry = some old → old.interface = hop.interface := by
  cases ok with
  | false => cases c <;> simp [yields, leaves]
  | true =>
    cases c with
    | owner => simp [yields, leaves]
    | add hop => cases entry <;> simp [yields, leaves]
    | replace hop => simp [yields, leaves]
    | remove interface => cases entry <;> simp [yields, leaves, Option.filter_some, apply_ite]

namespace RouteTable

/-- What is assumed of the `ip` command, given the table that it works on: the interface that has
the route for a prefix, by the text of the prefix. Adding a route that is there changes nothing and
fails, whatever its interface; so does removing a route that does not lead through the interface; a
lookup lists the route in one line. A command that could do what it is told may still fail, but not
with the phrase that tells of a route that is there or missing. -/
structure IpRoute (table : Option Nat) (run : Command σ) (holder : σ → String → Option String) :
    Prop where
  /-- Interfaces have names. -/
  name {s : σ} {text : String} {i : String} : holder s text = some i → IsName i
  add_present (s : σ) (d : Prefix) (hop : Hop) : holder s d.text ≠ none →
    let outcome := run (changeArguments table "add" d hop.interface hop.gateway) s
    outcome.1.FailsWith "File exists" ∧ holder outcome.2 = holder s
  add_absent (s : σ) (d : Prefix) (hop : Hop) : holder s d.text = none →
    let outcome := run (changeArguments table "add" d hop.interface hop.gateway) s
    outcome.1.Succeeds ∧
        holder outcome.2 = Function.update (holder s) d.text (some hop.interface) ∨
      ¬ outcome.1.Succeeds ∧ ¬ outcome.1.FailsWith "File exists" ∧ holder outcome.2 = holder s
  replace (s : σ) (d : Prefix) (hop : Hop) :
    let outcome := run (changeArguments table "replace" d hop.interface hop.gateway) s
    outcome.1.Succeeds ∧
        holder outcome.2 = Function.update (holder s) d.text (some hop.interface) ∨
      ¬ outcome.1.Succeeds ∧ holder outcome.2 = holder s
  remove_present (s : σ) (d : Prefix) (i : String) : holder s d.text = some i →
    let outcome := run (changeArguments table "del" d i none) s
    outcome.1.Succeeds ∧ holder outcome.2 = Function.update (holder s) d.text none ∨
      ¬ outcome.1.Succeeds ∧ ¬ outcome.1.FailsWith "No such process" ∧ holder outcome.2 = holder s
  remove_absent (s : σ) (d : Prefix) (i : String) : holder s d.text ≠ some i →
    let outcome := run (changeArguments table "del" d i none) s
    outcome.1.FailsWith "No such process" ∧ holder outcome.2 = holder s
  lookup (s : σ) (d : Prefix) :
    let outcome := run (listArguments table d) s
    (outcome.1.Lists fun listing =>
      match holder s d.text with
      | some i => Names i listing
      | none => listing = []) ∧ holder outcome.2 = holder s

/-- What happens to a table: a call for a destination, and a change that somebody else makes. -/
inductive Step (σ : Type) where
  | call (destination : Prefix) (call : RouteCall)
  | write (change : σ → σ)

/-- The state after a series of steps. -/
def play (T : RouteTable σ) (start : σ) (steps : List (Step σ)) : σ :=
  steps.foldl
    (fun s step =>
      match step with
      | .call d c => (T.call d s c).2
      | .write change => change s)
    start

namespace IpRoute

variable {table : Option Nat} {run : Command σ} {holder : σ → String → Option String}
  (h : IpRoute table run holder) {s s' start : σ} {d e : Prefix} {hop : Hop} {i : String}

include h

/-! ### What one call does -/

/-- A lookup succeeds, names the interface that has the route, and changes nothing. -/
theorem owner_eq :
    ((system table run).owner d s).1 = .ok (holder s d.text) ∧
      holder ((system table run).owner d s).2 = holder s := by
  obtain ⟨hlists, hsame⟩ := h.lookup s d
  simp only [system, started_of_clean (clean_listArguments table d)]
  rcases hrun : run (listArguments table d) s with ⟨reason | ⟨_ | _, output, complaint⟩, after⟩ <;>
    rw [hrun] at hlists hsame
  · exact hlists.elim
  · exact hlists.elim
  · refine ⟨congrArg Except.ok ?_, hsame⟩
    cases hheld : holder s d.text with
    | none =>
      rw [hheld] at hlists
      rw [show output = [] from hlists, ownerIn_nil]
    | some i =>
      rw [hheld] at hlists
      exact ownerIn_of_names hlists (h.name hheld)

/-- What an addition does: it makes a route where there is none and counts as a success where there
is one, or it fails. -/
theorem add_effect :
    ((system table run).add d hop s).1 = .ok () ∧
        holder ((system table run).add d hop s).2 =
          Function.update (holder s) d.text (some ((holder s d.text).getD hop.interface)) ∨
      ((system table run).add d hop s).1 ≠ .ok () ∧
        holder ((system table run).add d hop s).2 = holder s := by
  refine changed_effect holder ?_
  rw [forgiven_exists_iff]
  cases hheld : holder s d.text with
  | some i =>
    -- The refusal is forgiven without a look at the interface, so the route that is there is kept.
    obtain ⟨hfails, hsame⟩ := h.add_present s d hop (by simp [hheld])
    refine .inl ⟨.inr hfails, ?_⟩
    rw [hsame, Option.getD_some, ← hheld, Function.update_eq_self]
  | none =>
    rcases h.add_absent s d hop hheld with ⟨hsucceeds, hmade⟩ | ⟨hfailed, hrefused, hsame⟩
    · exact .inl ⟨.inl hsucceeds, hmade⟩
    · exact .inr ⟨not_or.2 ⟨hfailed, hrefused⟩, hsame⟩

/-- What a replacement does: it makes the route, or it fails. -/
theorem replace_effect :
    ((system table run).replace d hop s).1 = .ok () ∧
        holder ((system table run).replace d hop s).2 =
          Function.update (holder s) d.text (some hop.interface) ∨
      ((system table run).replace d hop s).1 ≠ .ok () ∧
        holder ((system table run).replace d hop s).2 = holder s := by
  refine changed_effect holder ?_
  rcases h.replace s d hop with ⟨hsucceeds, hmade⟩ | ⟨hfailed, hsame⟩
  · exact .inl ⟨.inl hsucceeds, hmade⟩
  · exact .inr ⟨not_or.2 ⟨hfailed, not_forgiven_never⟩, hsame⟩

/-- What a removal does: it takes away a route through the interface and counts as a success where
there is none, or it fails. -/
theorem remove_effect :
    ((system table run).remove d i s).1 = .ok () ∧
        holder ((system table run).remove d i s).2 =
          Function.update (holder s) d.text ((holder s d.text).filter (· ≠ i)) ∨
      ((system table run).remove d i s).1 ≠ .ok () ∧
        holder ((system table run).remove d i s).2 = holder s := by
  refine changed_effect holder ?_
  rw [forgiven_missing_iff]
  by_cases hheld : holder s d.text = some i
  · have hnone : (holder s d.text).filter (· ≠ i) = none := by simp [hheld, Option.filter_some]
    rcases h.remove_present s d i hheld with ⟨hsucceeds, hgone⟩ | ⟨hfailed, hrefused, hsame⟩
    · exact .inl ⟨.inl hsucceeds, hgone.trans (by rw [hnone])⟩
    · exact .inr ⟨not_or.2 ⟨hfailed, hrefused⟩, hsame⟩
  · have hkept : (holder s d.text).filter (· ≠ i) = holder s d.text := by
      cases hother : holder s d.text with
      | none => rfl
      | some j =>
        have hne : j ≠ i := by
          rintro rfl
          exact hheld hother
        simp [Option.filter_some, hne]
    obtain ⟨hfails, hsame⟩ := h.remove_absent s d i hheld
    refine .inl ⟨.inr hfails, ?_⟩
    rw [hsame, hkept, Function.update_eq_self]

/-- One call changes the table as it says for the route of its destination, and nothing else. -/
theorem call_effect (c : RouteCall) :
    holder ((system table run).call d s c).2 =
      Function.update (holder s) d.text
        (c.yields ((system table run).call d s c).1.isOk (holder s d.text)) := by
  cases c with
  | owner => rw [call, h.owner_eq.2, RouteCall.yields, Function.update_eq_self]
  | add hop => exact RouteCall.yields_of_effect h.add_effect
  | replace hop => exact RouteCall.yields_of_effect h.replace_effect
  | remove i => exact RouteCall.yields_of_effect h.remove_effect

/-! ### What a success means -/

/-- An addition that counts as a success leaves a route that is there, and makes one where there is
none. -/
theorem add_ok (hok : (system table run).add d hop s = (.ok (), s')) :
    holder s' = Function.update (holder s) d.text (some ((holder s d.text).getD hop.interface)) := by
  have heffect : _ ∨ ((system table run).add d hop s).1 ≠ .ok () ∧ _ := h.add_effect
  rw [hok] at heffect
  exact (heffect.resolve_right fun hfailed => hfailed.1 rfl).2

/-- A replacement that succeeds has made the route. -/
theorem replace_ok (hok : (system table run).replace d hop s = (.ok (), s')) :
    holder s' = Function.update (holder s) d.text (some hop.interface) := by
  have heffect : _ ∨ ((system table run).replace d hop s).1 ≠ .ok () ∧ _ := h.replace_effect
  rw [hok] at heffect
  exact (heffect.resolve_right fun hfailed => hfailed.1 rfl).2

/-- After a removal that counts as a success, no route leads through the interface, and a route
through another one is left. -/
theorem remove_ok (hok : (system table run).remove d i s = (.ok (), s')) :
    holder s' = Function.update (holder s) d.text ((holder s d.text).filter (· ≠ i)) := by
  have heffect : _ ∨ ((system table run).remove d i s).1 ≠ .ok () ∧ _ := h.remove_effect
  rw [hok] at heffect
  exact (heffect.resolve_right fun hfailed => hfailed.1 rfl).2

/-- Adding a route that is there counts as a success. -/
theorem add_of_present (hname : '\x00' ∉ hop.interface.toList) (hheld : holder s d.text ≠ none) :
    ((system table run).add d hop s).1 = .ok () :=
  (changed_of_clean (clean_changeArguments (by decide) hname)).2.2
    (.inr (forgiven_exists_iff.2 (h.add_present s d hop hheld).1))

/-- Removing a route that does not lead through the interface counts as a success. -/
theorem remove_of_absent (hname : '\x00' ∉ i.toList) (hheld : holder s d.text ≠ some i) :
    ((system table run).remove d i s).1 = .ok () :=
  (changed_of_clean (clean_changeArguments (by decide) hname)).2.2
    (.inr (forgiven_missing_iff.2 (h.remove_absent s d i hheld).1))

/-! ### Between a lookup and an addition -/

/-- The route for a prefix stays while nobody else writes and no call but lookups is made for it. -/
theorem play_elsewhere {steps : List (Step σ)}
    (hsteps : ∀ step ∈ steps, ∃ e c, step = .call e c ∧ (e.text = d.text → c = .owner)) :
    holder (play (system table run) s steps) d.text = holder s d.text := by
  induction steps generalizing s with
  | nil => rfl
  | cons step steps ih =>
    obtain ⟨e, c, rfl, hcall⟩ := hsteps _ List.mem_cons_self
    rw [play, List.foldl_cons, ← play, ih fun step hstep => hsteps step (List.mem_cons_of_mem _ hstep),
      h.call_effect]
    -- Prefixes with one text share a route, so it is the texts that are compared.
    by_cases htext : d.text = e.text
    · rw [hcall htext.symm, htext, Function.update_self, RouteCall.yields]
    · exact Function.update_of_ne htext _ _

/-- An addition makes the route if a lookup found none and nobody else has written since. -/
theorem add_after_lookup {steps : List (Step σ)}
    (hlookup : ((system table run).owner d s).1 = .ok none)
    (hsteps : ∀ step ∈ steps, ∃ e c, step = .call e c ∧ (e.text = d.text → c = .owner))
    (hok : (system table run).add d hop (play (system table run) s steps) = (.ok (), s')) :
    holder s' d.text = some hop.interface := by
  have hnone : holder s d.text = none := by
    rw [h.owner_eq.1] at hlookup
    exact Except.ok.inj hlookup
  rw [h.add_ok hok, Function.update_self, h.play_elsewhere hsteps, hnone, Option.getD_none]

/-- A route that is put in place leads through its interface, and there was none before or one
through a managed interface. -/
theorem install_ok {managed : List String} {outcome : Outcome}
    (hok : install (system table run) managed d hop s = (.ok outcome, s')) :
    holder s' = Function.update (holder s) d.text (some hop.interface) ∧
      ∀ old, holder s d.text = some old → old ∈ managed := by
  obtain ⟨hanswer, hsame⟩ := h.owner_eq (d := d) (s := s)
  unfold install at hok
  rcases howner : (system table run).owner d s with ⟨e | _ | interface, s₁⟩ <;>
    rw [howner] at hanswer hsame
  · cases hanswer
  · have hnone := Except.ok.inj hanswer
    rcases hadd : (system table run).add d hop s₁ with ⟨e | _, s₂⟩ <;>
      simp only [howner, hadd] at hok <;> cases hok
    refine ⟨by rw [h.add_ok hadd, hsame, ← hnone, Option.getD_none], ?_⟩
    intro old hold
    rw [← hnone] at hold
    cases hold
  · by_cases hmanaged : managed.contains interface = true
    · rcases hreplace : (system table run).replace d hop s₁ with ⟨e | _, s₂⟩ <;>
        simp only [howner, if_pos hmanaged, hreplace] at hok <;> cases hok
      refine ⟨by rw [h.replace_ok hreplace, hsame], ?_⟩
      intro old hold
      rw [← Except.ok.inj hanswer] at hold
      cases hold
      exact List.contains_iff_mem.1 hmanaged
    · simp only [howner, if_neg hmanaged] at hok
      cases hok

end IpRoute

/-! ## A command -/

/-- A name that an interface can have. -/
structure InterfaceName where
  name : String
  nonempty : name ≠ ""
  plain : Plain name

/-- Routes by the text of their prefixes. -/
abbrev Listed := OrderedMap String InterfaceName

/-- Enter a route through an interface that can exist. -/
def enter (text interface : String) (s : Listed) : CommandResult × Listed :=
  if h : interface ≠ "" ∧ Plain interface then (.writing true "", s.insert text ⟨interface, h.1, h.2⟩)
  else (.writing false "Cannot find device\n", s)

/-- A command for the main table that knows only the interfaces of routes. -/
def ip : Command Listed := fun arguments s =>
  match arguments with
  | [_, "-o", "route", "show", "exact", text, "table", _] =>
    match s.get? text with
    | some i => (.writing true (text ++ " dev " ++ i.name ++ "\n"), s)
    | none => (.writing true "", s)
  | "route" :: verb :: text :: rest =>
    let interface := (rest.getLast?).getD ""
    if verb = "add" then
      match s.get? text with
      | some _ => (.writing false "RTNETLINK answers: File exists\n", s)
      | none => enter text interface s
    else if verb = "replace" then enter text interface s
    else
      if (s.get? text).map InterfaceName.name = some interface then (.writing true "", s.erase text)
      else (.writing false "RTNETLINK answers: No such process\n", s)
  | _ => (.writing false "", s)

/-- The interface that has the route for a prefix. -/
def held (s : Listed) (text : String) : Option String := (s.get? text).map InterfaceName.name

theorem held_insert (s : Listed) (text : String) (i : InterfaceName) :
    held (s.insert text i) = Function.update (held s) text (some i.name) := by
  funext other
  by_cases h : other = text
  · subst h
    simp [held]
  · simp [held, OrderedMap.get?_insert, Function.update_of_ne, h]

theorem held_erase (s : Listed) (text : String) :
    held (s.erase text) = Function.update (held s) text none := by
  funext other
  by_cases h : other = text
  · subst h
    simp [held]
  · simp [held, OrderedMap.get?_erase, Function.update_of_ne, h]

theorem ip_change (verb interface : String) (d : Prefix) (gateway : Option Address) (s : Listed) :
    ip (changeArguments none verb d interface gateway) s =
      if verb = "add" then
        match s.get? d.text with
        | some _ => (.writing false "RTNETLINK answers: File exists\n", s)
        | none => enter d.text interface s
      else if verb = "replace" then enter d.text interface s
      else
        if held s d.text = some interface then (.writing true "", s.erase d.text)
        else (.writing false "RTNETLINK answers: No such process\n", s) := by
  cases gateway <;> simp [ip, changeArguments, tableArguments, held]

theorem ip_list (d : Prefix) (s : Listed) :
    ip (listArguments none d) s =
      match s.get? d.text with
      | some i => (.writing true (d.text ++ " dev " ++ i.name ++ "\n"), s)
      | none => (.writing true "", s) := by
  unfold listArguments
  split <;> simp [ip]

/-- An interface that can exist has a name. -/
theorem InterfaceName.isName (i : InterfaceName) : IsName i.name :=
  ⟨by simpa using i.nonempty, fun c hc =>
    have hplain := isPlain_iff.1 (i.plain c hc)
    ⟨hplain.1, hplain.2.1⟩⟩

/-- A line of the listing names the interface. -/
theorem names_line (d : Prefix) (i : InterfaceName) :
    Names i.name (Utf8.ascii (d.text ++ " dev " ++ i.name ++ "\n").toList) := by
  have hd : ∀ c ∈ d.text.toList, isBlank c = false :=
    fun c hc => (isPlain_iff.1 (d.plain_text c hc)).1
  have hslash : '/' ∈ d.text.toList := by simp [Prefix.text]
  refine ⟨d.text.toList ++ [' '], ['\n'], ?_, ?_, ?_, .inr ⟨d.text.toList, ' ', rfl, rfl⟩,
    .inr ⟨'\n', [], by decide, rfl⟩⟩
  · rw [Utf8.decodeLossy_ascii (((d.plain_text.ascii.append (by decide)).append i.plain.ascii).append
      (by decide))]
    simp
  · rw [List.mem_append, not_or]
    exact ⟨fun hmem => absurd (hd _ hmem) (by decide), by decide⟩
  · rw [words_append _ _ (by decide), words_eq_singleton (List.ne_nil_of_mem hslash) hd]
    intro hmem
    have hdev : "dev".toList = d.text.toList := by simpa [words, cutWhere] using hmem
    rw [← hdev] at hslash
    revert hslash
    decide

/-- What entering a route does: it makes the route, or it complains about the interface. -/
theorem enter_effect (text interface : String) (s : Listed) :
    (enter text interface s).1.Succeeds ∧
        held (enter text interface s).2 = Function.update (held s) text (some interface) ∨
      ¬ (enter text interface s).1.Succeeds ∧
        ¬ (enter text interface s).1.FailsWith "File exists" ∧
        held (enter text interface s).2 = held s := by
  unfold enter
  split
  · exact .inl ⟨trivial, held_insert _ _ _⟩
  · refine .inr ⟨id, ?_, rfl⟩
    rw [CommandResult.failsWith_writing_iff (by decide)]
    decide

theorem enter_succeeds (text : String) (i : InterfaceName) (s : Listed) :
    (enter text i.name s).1.Succeeds := by
  rw [enter, dif_pos ⟨i.nonempty, i.plain⟩]
  trivial

/-- The command keeps to what is assumed of `ip`. -/
theorem ipRoute_ip : IpRoute none ip held where
  name {s text i} hheld := by
    obtain ⟨j, -, rfl⟩ := Option.map_eq_some_iff.1 hheld
    exact j.isName
  add_present s d hop hheld := by
    cases hlisted : s.get? d.text with
    | none => exact absurd (congrArg (Option.map InterfaceName.name) hlisted) hheld
    | some i =>
      simp only [ip_change, if_true, hlisted, and_true]
      rw [CommandResult.failsWith_writing_iff (by decide)]
      decide
  add_absent s d hop hheld := by
    simp only [ip_change, if_true, Option.map_eq_none_iff.1 hheld]
    exact enter_effect d.text hop.interface s
  replace s d hop := by
    simp only [ip_change, if_true, if_neg (show ¬ "replace" = "add" by decide)]
    exact (enter_effect d.text hop.interface s).imp_right fun hfailed => ⟨hfailed.1, hfailed.2.2⟩
  remove_present s d i hheld := by
    simp only [ip_change, if_neg (show ¬ "del" = "add" by decide),
      if_neg (show ¬ "del" = "replace" by decide), if_pos hheld]
    exact .inl ⟨trivial, held_erase s d.text⟩
  remove_absent s d i hheld := by
    simp only [ip_change, if_neg (show ¬ "del" = "add" by decide),
      if_neg (show ¬ "del" = "replace" by decide), if_neg hheld, and_true]
    rw [CommandResult.failsWith_writing_iff (by decide)]
    decide
  lookup s d := by
    cases hlisted : s.get? d.text with
    | none =>
      simp only [ip_list, hlisted, held, Option.map_none]
      exact ⟨rfl, trivial⟩
    | some i =>
      simp only [ip_list, hlisted, held, Option.map_some]
      exact ⟨names_line d i, trivial⟩

/-! ### A route that somebody else makes -/

/-- The prefix 10.7.0.0/16. -/
def site : Prefix := ⟨.v4 0x0A070000, 16, by decide⟩

def eth0 : InterfaceName := ⟨"eth0", by decide, by decide⟩

/-- After a lookup, somebody else makes a route through another interface. -/
def seized : Listed :=
  play (system none ip) .empty [.call site .owner, .write (·.insert site.text eth0)]

theorem held_seized : held seized site.text = some "eth0" := by
  rw [seized, play, List.foldl_cons, List.foldl_cons, List.foldl_nil, held_insert,
    Function.update_self]
  rfl

/-! ## What the answers mean -/

/-- What the table behind the command answers, and what that means, whatever has happened to the
table before. After a replacement that succeeds the route leads through the interface that was
given, after a removal that succeeds none does, and a lookup tells who has the route. Only an
addition that succeeds means less: where another interface has the route, that one keeps it. -/
theorem system_contract {table : Option Nat} {run : Command σ} {holder : σ → String → Option String}
    (h : IpRoute table run holder) (start : σ) (steps : List (Step σ)) (d : Prefix) (hop : Hop)
    (i : String) :
    let T := system table run
    let s := play T start steps
    (∀ s', T.add d hop s = (.ok (), s') →
      (holder s' d.text = some hop.interface ↔
        ∀ j, holder s d.text = some j → j = hop.interface) ∧
      (holder s d.text ≠ none → holder s' = holder s)) ∧
    (holder s d.text = some hop.interface → ∃ s', T.add d hop s = (.ok (), s')) ∧
    (∀ s', T.replace d hop s = (.ok (), s') → holder s' d.text = some hop.interface) ∧
    (∀ s', T.remove d i s = (.ok (), s') → holder s' d.text ≠ some i) ∧
    ('\x00' ∉ i.toList → holder s d.text ≠ some i → ∃ s', T.remove d i s = (.ok (), s')) ∧
    ∃ s', T.owner d s = (.ok (holder s d.text), s') ∧ holder s' = holder s := by
  intro T s
  refine ⟨fun s' hok => ?_, fun hheld => ?_, fun s' hok => ?_, fun s' hok => ?_,
    fun hname hheld => ?_, ?_⟩
  · have hadded := h.add_ok hok
    cases hheld : holder s d.text with
    | none => simp [hadded, hheld]
    | some j => simp [hadded, hheld]
  · have hname : '\x00' ∉ hop.interface.toList := fun hmem => ((h.name hheld).2 _ hmem).2 rfl
    exact ⟨_, Prod.ext (h.add_of_present hname (by simp [hheld])) rfl⟩
  · rw [h.replace_ok hok, Function.update_self]
  · rw [h.remove_ok hok, Function.update_self]
    simp [Option.filter_eq_some_iff]
  · exact ⟨_, Prod.ext (h.remove_of_absent hname hheld) rfl⟩
  · exact ⟨_, Prod.ext h.owner_eq.1 rfl, h.owner_eq.2⟩

/-- Where somebody else has made a route, an addition leaves it; a replacement and a removal reach
it. -/
theorem system_contract_seized :
    let T := system none ip
    (∃ s, T.add site ⟨"wg-a", none⟩ seized = (.ok (), s) ∧ held s site.text ≠ some "wg-a" ∧
      held s = held seized) ∧
    (∃ s, T.replace site ⟨"wg-a", none⟩ seized = (.ok (), s) ∧ held s site.text = some "wg-a") ∧
    (∃ s, T.remove site "eth0" seized = (.ok (), s) ∧ held s site.text ≠ some "eth0") ∧
    (T.owner site seized).1 = .ok (some "eth0") := by
  obtain ⟨hadd, -, hreplace, hremove, -, s', howner, -⟩ := system_contract ipRoute_ip .empty
    [.call site .owner, .write (·.insert site.text eth0)] site ⟨"wg-a", none⟩ "eth0"
  rw [← seized] at hadd hreplace hremove howner
  rw [held_seized] at hadd howner
  -- All three changes count as a success, the addition because its failure is forgiven.
  have hadded : ((system none ip).add site ⟨"wg-a", none⟩ seized).1 = .ok () :=
    ipRoute_ip.add_of_present (by decide) (by rw [held_seized]; exact nofun)
  have hreplaced : ((system none ip).replace site ⟨"wg-a", none⟩ seized).1 = .ok () :=
    (changed_of_clean (clean_changeArguments (by decide) (by decide))).2.2
      (.inl (by rw [ip_change]; exact enter_succeeds _ ⟨"wg-a", by decide, by decide⟩ _))
  have hremoved : ((system none ip).remove site "eth0" seized).1 = .ok () :=
    (changed_of_clean (clean_changeArguments (by decide) (by decide))).2.2
      (.inl (by rw [ip_change, held_seized]; trivial))
  obtain ⟨hiff, hkept⟩ := hadd _ (Prod.ext hadded rfl)
  refine ⟨⟨_, Prod.ext hadded rfl, fun heq => ?_, hkept nofun⟩,
    ⟨_, Prod.ext hreplaced rfl, hreplace _ (Prod.ext hreplaced rfl)⟩,
    ⟨_, Prod.ext hremoved rfl, hremove _ (Prod.ext hremoved rfl)⟩, congrArg Prod.fst howner⟩
  exact absurd (hiff.1 heq "eth0" rfl) (by decide)

/-- A lookup finds no route, somebody else makes one, and the addition that comes next succeeds and
leaves it. -/
theorem addition_leaves_foreign :
    let T := system none ip
    let s := play T .empty [.call site .owner, .write (·.insert site.text eth0)]
    IpRoute none ip held ∧ (T.owner site .empty).1 = .ok none ∧
      (T.add site ⟨"wg-a", none⟩ s).1 = .ok () ∧
      held (T.add site ⟨"wg-a", none⟩ s).2 site.text = some "eth0" := by
  intro T s
  have hheld : held s site.text = some "eth0" := held_seized
  have hadded : (T.add site ⟨"wg-a", none⟩ s).1 = .ok () :=
    ipRoute_ip.add_of_present (by decide) (by rw [hheld]; exact nofun)
  refine ⟨ipRoute_ip, ipRoute_ip.owner_eq.1, hadded, ?_⟩
  rw [ipRoute_ip.add_ok (Prod.ext hadded rfl), Function.update_self, hheld]
  rfl

end RouteTable

end RouteKeeper
