import RouteKeeper.Proofs.Rounds

/-!
# Counting the events of a round

The tasks of a round report about many addresses at once, and their reports interleave as they may.
What the round says of a target depends on two things only: how many requests to it were tried, and
its answers in their order. The first answer is the one that counts; those after it are duplicates.
Reports about other addresses change nothing, and entering the round into results replaces what
these say about its targets and nothing else.

## Main definitions

* `RoundEvent.tries`, `RoundEvent.answer?` — what an event says of an address.
* `ProbeStats.counting` — the counts that requests and answers give.
* `Tally.after` — the tally of a new round after events.

## Main statements

* `Tally.get?_after` — the tally of a target, by induction on the events.
* `Tally.get?_commit_after` — the results after a round, whatever the interleaving of its events.
-/
namespace RouteKeeper

namespace RoundEvent

/-- The event says that a request to the address was tried. -/
def tries (a : Address) : RoundEvent → Bool
  | sent target | sendFailed target => target = a
  | reply .. => false

/-- The answer from an address that the event reports: its round-trip time and its remaining
hops. -/
def answer? (a : Address) : RoundEvent → Option (Duration × Option UInt8)
  | sent _ | sendFailed _ => none
  | reply source rtt ttl => if source = a then some (rtt, ttl) else none

variable {e : RoundEvent} {a : Address}

theorem tries_of_address_ne (h : e.address ≠ a) : e.tries a = false := by
  cases e with
  | sent target => exact decide_eq_false h
  | sendFailed target => exact decide_eq_false h
  | reply source rtt ttl => rfl

theorem answer?_of_address_ne (h : e.address ≠ a) : e.answer? a = none := by
  cases e with
  | sent target => rfl
  | sendFailed target => rfl
  | reply source rtt ttl => exact if_neg h

/-- An event about an address tells of a request or of an answer. -/
theorem of_address_eq (h : e.address = a) :
    (e.tries a = true ∧ e.answer? a = none) ∨
      (e.tries a = false ∧ ∃ answer, e.answer? a = some answer) := by
  cases e with
  | sent target => exact .inl ⟨decide_eq_true h, rfl⟩
  | sendFailed target => exact .inl ⟨decide_eq_true h, rfl⟩
  | reply source rtt ttl => exact .inr ⟨rfl, _, if_pos h⟩

/-- The requests to an address and the answers from it are the events about it. -/
theorem countP_tries_add_length_answers (a : Address) (events : List RoundEvent) :
    events.countP (·.tries a) + (events.filterMap (·.answer? a)).length =
      (events.filter (·.address = a)).length := by
  induction events with
  | nil => rfl
  | cons e rest ih =>
    by_cases h : e.address = a
    · rcases of_address_eq h with ⟨htries, hanswer⟩ | ⟨htries, answer, hanswer⟩
      · simp only [List.countP_cons, List.filterMap_cons, List.filter_cons, htries, hanswer, h,
          decide_true, if_true, List.length_cons]
        omega
      · simp only [List.countP_cons, List.filterMap_cons, List.filter_cons, htries, hanswer, h,
          decide_true, if_true, Bool.false_eq_true, if_false, List.length_cons]
        omega
    · simp [tries_of_address_ne h, answer?_of_address_ne h, h, ih]

end RoundEvent

namespace ProbeStats

/-- The counts of a target to which so many requests were tried, and which gave these answers. -/
def counting (sent : Nat) (answers : List (Duration × Option UInt8)) : ProbeStats :=
  { sent
    received := min 1 answers.length
    duplicates := answers.length - 1
    lastRtt := answers.head?.map Prod.fst
    lastTtl := answers.head?.bind Prod.snd }

variable (sent : Nat) (answers : List (Duration × Option UInt8))

theorem received_counting : (counting sent answers).received = if answers = [] then 0 else 1 := by
  cases answers with
  | nil => rfl
  | cons first rest => simp [counting]

/-- Every answer is the one received, or a duplicate. -/
theorem received_add_duplicates_counting :
    (counting sent answers).received + (counting sent answers).duplicates = answers.length := by
  simp only [counting]
  omega

/-- A target is lost exactly if it has no round-trip time. -/
theorem isLost_counting_iff :
    (counting sent answers).isLost = true ↔ (counting sent answers).rtt = none := by
  cases answers with
  | nil => simp [counting, isLost, rtt]
  | cons first rest => simp [counting, isLost, rtt]

end ProbeStats

/-- An event about a target adds to its requests or to its answers. -/
theorem RoundEvent.count_counting (e : RoundEvent) (sent : Nat)
    (answers : List (Duration × Option UInt8)) :
    e.count (.counting sent answers) =
      .counting (sent + if e.tries e.address = true then 1 else 0)
        (answers ++ (e.answer? e.address).toList) := by
  cases e with
  | sent target => simp [count, tries, answer?, address, ProbeStats.counting]
  | sendFailed target => simp [count, tries, answer?, address, ProbeStats.counting]
  | reply source rtt ttl =>
    cases answers with
    | nil => simp [count, tries, answer?, address, ProbeStats.counting]
    | cons first rest => simp [count, tries, answer?, address, ProbeStats.counting]

namespace Tally

variable {targets : List Address} {events : List RoundEvent} {a : Address}

/-- The tally of a new round after events. -/
def after (targets : List Address) (events : List RoundEvent) : Tally :=
  events.foldl handle (new targets)

theorem after_concat (targets : List Address) (events : List RoundEvent) (e : RoundEvent) :
    after targets (events ++ [e]) = (after targets events).handle e := by
  simp [after]

theorem get?_after_of_not_mem (h : a ∉ targets) (events : List RoundEvent) :
    (after targets events).get? a = none := by
  induction events using List.reverseRecOn with
  | nil => exact (get?_new targets a).trans (if_neg h)
  | append_singleton earlier e ih => rw [after_concat, get?_handle, ih, Option.map_none, ite_self]

/-- The tally of a target counts its requests and its answers. -/
theorem get?_after (h : a ∈ targets) (events : List RoundEvent) :
    (after targets events).get? a =
      some (.counting (events.countP (·.tries a)) (events.filterMap (·.answer? a))) := by
  induction events using List.reverseRecOn with
  | nil => exact (get?_new targets a).trans (if_pos h)
  | append_singleton earlier e ih =>
    rw [after_concat, get?_handle, ih, List.countP_append, List.filterMap_append,
      List.countP_singleton]
    by_cases he : a = e.address
    · rw [if_pos he, Option.map_some, he, RoundEvent.count_counting]
      cases hanswer : e.answer? e.address <;> simp [hanswer]
    · simp [he, RoundEvent.tries_of_address_ne (Ne.symm he),
        RoundEvent.answer?_of_address_ne (Ne.symm he)]

/-- No count of a target is above the number of events about it. -/
theorem counts_after_le {s : ProbeStats} (h : (after targets events).get? a = some s) :
    s.sent ≤ (events.filter (·.address = a)).length ∧
      s.received ≤ (events.filter (·.address = a)).length ∧
      s.duplicates ≤ (events.filter (·.address = a)).length := by
  by_cases ha : a ∈ targets
  · rw [get?_after ha, Option.some_inj] at h
    have hall := RoundEvent.countP_tries_add_length_answers a events
    simp only [← h, ProbeStats.counting]
    omega
  · rw [get?_after_of_not_mem ha] at h
    cases h

/-- The results say of an address what the round says, if it is one of its targets, and else what
they said before. -/
theorem get?_commit_after_eq (targets : List Address) (events : List RoundEvent) (results : Results)
    (a : Address) :
    ((after targets events).commit results).get? a =
      if a ∈ targets then
        some (.counting (events.countP (·.tries a)) (events.filterMap (·.answer? a)))
      else results.get? a := by
  rw [get?_commit]
  split
  case isTrue ha => rw [get?_after ha, Option.some_or]
  case isFalse ha => rw [get?_after_of_not_mem ha, Option.none_or]

/-- A round whose events interleave in any way accounts for all of them. In the results each target
has the number of requests to it that were tried, one answer if there was any, the others as
duplicates, and the time and hops of the first; it is lost exactly if it has no round-trip time.
What the results say of other addresses stays. While fewer events concern an address than a counter
of 32 bits can count, no counter overflows. Other events, with as many requests to each target and
with its answers in the same order, give the same results. -/
theorem get?_commit_after (targets : List Address) (events : List RoundEvent)
    (hfew : ∀ a, (events.filter (·.address = a)).length < UInt32.size) (results : Results) :
    (∀ a ∈ targets, ∃ s, ((after targets events).commit results).get? a = some s ∧
      s.sent = events.countP (·.tries a) ∧
      s.received = (if events.filterMap (·.answer? a) = [] then 0 else 1) ∧
      s.received + s.duplicates = (events.filterMap (·.answer? a)).length ∧
      s.lastRtt = (events.filterMap (·.answer? a)).head?.map Prod.fst ∧
      s.lastTtl = (events.filterMap (·.answer? a)).head?.bind Prod.snd ∧
      (s.isLost = true ↔ s.rtt = none)) ∧
    (∀ a ∉ targets, ((after targets events).commit results).get? a = results.get? a) ∧
    (∀ earlier, earlier <+: events → ∀ a s, (after targets earlier).get? a = some s →
      s.sent < UInt32.size ∧ s.received < UInt32.size ∧ s.duplicates < UInt32.size) ∧
    ∀ others : List RoundEvent,
      (∀ a ∈ targets, others.countP (·.tries a) = events.countP (·.tries a) ∧
        others.filterMap (·.answer? a) = events.filterMap (·.answer? a)) →
      (after targets others).commit results = (after targets events).commit results := by
  refine ⟨?accounts, ?rest, ?small, ?same⟩
  case accounts =>
    intro a ha
    refine ⟨_, (get?_commit_after_eq targets events results a).trans (if_pos ha), rfl, ?_, ?_, rfl,
      rfl, ?_⟩
    · exact ProbeStats.received_counting ..
    · exact ProbeStats.received_add_duplicates_counting ..
    · exact ProbeStats.isLost_counting_iff ..
  case rest =>
    intro a ha
    exact (get?_commit_after_eq targets events results a).trans (if_neg ha)
  case small =>
    intro earlier hearlier a s hs
    have hle := counts_after_le hs
    have hfewer : (earlier.filter (·.address = a)).length ≤
        (events.filter (·.address = a)).length := (hearlier.sublist.filter _).length_le
    have hsize := hfew a
    omega
  case same =>
    intro others hothers
    refine OrderedMap.get?_ext fun a => ?_
    rw [get?_commit_after_eq, get?_commit_after_eq]
    split
    case isTrue ha => rw [(hothers a ha).1, (hothers a ha).2]
    case isFalse => rfl

/-- Two targets are asked, of which one answers twice, and a stranger answers in between. -/
def busy : List RoundEvent :=
  [.reply (.v4 3) (.clamp 7) none, .sent (.v4 1), .reply (.v4 1) (.clamp 12) (some 60),
    .sendFailed (.v4 2), .sent (.v4 3), .reply (.v4 1) (.clamp 9) none]

/-- The same events about the targets, each target's together. -/
def sorted : List RoundEvent :=
  [.sendFailed (.v4 2), .reply (.v4 1) (.clamp 12) (some 60), .reply (.v4 1) (.clamp 9) none,
    .sent (.v4 1)]

/-- The first answer counts, the other target is lost, what was said of the stranger stays, and so
it is in the other order. -/
theorem get?_commit_after_busy :
    let before : Results := .ofList [(.v4 1, ⟨4, 1, 2, none, none⟩), (.v4 3, ⟨1, 1, 0, none, none⟩)]
    let results := (after [.v4 2, .v4 1] busy).commit before
    (∀ a, (busy.filter (·.address = a)).length < UInt32.size) ∧
    (∃ s, results.get? (.v4 1) = some s ∧ s.sent = 1 ∧ s.received = 1 ∧
      s.received + s.duplicates = 2 ∧ s.lastRtt = some (.clamp 12) ∧ s.lastTtl = some 60) ∧
    (∃ s, results.get? (.v4 2) = some s ∧ s.sent = 1 ∧ s.received = 0 ∧ s.isLost = true) ∧
    results.get? (.v4 3) = some ⟨1, 1, 0, none, none⟩ ∧
    (after [.v4 2, .v4 1] sorted).commit before = results := by
  intro before results
  have hfew (a : Address) : (busy.filter (·.address = a)).length < UInt32.size :=
    Nat.lt_of_le_of_lt (List.length_filter_le ..) (by decide)
  obtain ⟨haccounts, hrest, -, hsame⟩ := get?_commit_after [.v4 2, .v4 1] busy hfew before
  refine ⟨hfew, ?_, ?_, ?_, ?_⟩
  · obtain ⟨s, hs, hsent, hreceived, hall, hrtt, httl, -⟩ := haccounts (.v4 1) (by decide)
    exact ⟨s, hs, hsent.trans (by decide), hreceived.trans (by decide), hall.trans (by decide),
      hrtt.trans (by decide), httl.trans (by decide)⟩
  · obtain ⟨s, hs, hsent, hreceived, -⟩ := haccounts (.v4 2) (by decide)
    have hnone : s.received = 0 := hreceived.trans (by decide)
    exact ⟨s, hs, hsent.trans (by decide), hnone, by simp [ProbeStats.isLost, hnone]⟩
  · exact (hrest (.v4 3) (by decide)).trans (by decide)
  · exact hsame sorted (by decide)

end Tally

end RouteKeeper
