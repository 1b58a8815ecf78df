import Mathlib.Data.Fintype.Card
import Mathlib.Logic.Function.Basic
import TradeIn.Proofs.Identifier.Sequence

/-!
# Calls for ids in contention

The last id is kept in one cell that all calls for an id share. A call reads the clock once and looks at the cell. Then it
tries to exchange the id that it saw for the next one, and sees what the cell holds whenever this fails. Calls take turns
in any order, one access to the cell at a time, so what a call saw may be long out of date when it tries. There is only
one cell, and the accesses to one cell always have an order in which each of them finds what the one before has left,
however weakly accesses to other cells are ordered.

A call that is alone returns the next id of the source (`IdContention.run_alone`). However many calls there are, the ids
of the exchanges are those that the source gives out one after the other at the times that the calls have read
(`IdContention.Explained`). So they grow strictly, whatever the clock shows (`IdContention.ids_increase`).
-/

namespace TradeIn

/-- How far a call for an id has come. -/
inductive IdCall where
  /-- It has not begun. -/
  | waiting
  /-- It has read the clock. -/
  | begun (now : Int64)
  /-- It has read the clock, and has seen a last id since. -/
  | trying (now seen : Int64)
  | returned (id : Int64)
  deriving DecidableEq, Repr

/-- A turn of one of so many calls, with what the call does not decide. -/
structure IdTurn (count : ℕ) where
  call : Fin count
  /-- The time that the clock shows, in case the call reads it. -/
  now : Int64
  /-- Whether an exchange fails although the cell holds what the call saw. -/
  fails : Bool
  deriving DecidableEq, Repr

/-- An exchange that succeeded. -/
structure IdExchange (count : ℕ) where
  call : Fin count
  /-- The time that the call had read. -/
  now : Int64
  /-- The id that the call returned. -/
  id : Int64
  deriving DecidableEq, Repr

/-- The source of ids with so many calls for an id. -/
structure IdContention (count : ℕ) where
  source : IdSource
  calls : Fin count → IdCall
  /-- The exchanges that have succeeded, in their order. -/
  exchanges : List (IdExchange count)

namespace IdContention

variable {count : ℕ} {state : IdContention count}

/-- No call has begun, and no id was given out. -/
def initial (count : ℕ) : IdContention count := ⟨.fresh, fun _ => .waiting, []⟩

/-- A call has come further. -/
def advance (state : IdContention count) (call : Fin count) (progress : IdCall) : IdContention count :=
  { state with calls := Function.update state.calls call progress }

/-- A call has exchanged the last id for another one, and returns it. -/
def exchange (state : IdContention count) (call : Fin count) (now id : Int64) : IdContention count where
  source := ⟨id⟩
  calls := Function.update state.calls call (.returned id)
  exchanges := state.exchanges ++ [⟨call, now, id⟩]

/-- Let a call take its turn. -/
def step (state : IdContention count) (turn : IdTurn count) : IdContention count :=
  match state.calls turn.call with
  | .waiting => state.advance turn.call (.begun turn.now)
  | .begun now => state.advance turn.call (.trying now state.source.last)
  | .trying now seen =>
    if seen = state.source.last ∧ turn.fails = false then
      state.exchange turn.call now (idAfter seen (idOfClock now))
    else state.advance turn.call (.trying now state.source.last)
  | .returned _ => state

/-- Let calls take turns. -/
def run (state : IdContention count) (turns : List (IdTurn count)) : IdContention count := turns.foldl step state

/-- Turns can be taken in two parts. -/
theorem run_append (state : IdContention count) (earlier later : List (IdTurn count)) :
    state.run (earlier ++ later) = (state.run earlier).run later := List.foldl_append

/-- A call that has the cell to itself returns the id that the source gives out at the time that it read. -/
theorem run_alone {call : Fin count} (hwaiting : state.calls call = .waiting) (now again last : Int64) (fails : Bool) :
    let given := state.source.next now
    let after := state.run [⟨call, now, fails⟩, ⟨call, again, fails⟩, ⟨call, last, false⟩]
    after.calls call = .returned given.1 ∧ after.source = given.2 := by
  simp [run, step, hwaiting, advance, exchange, IdSource.next]

/-- Between two states no id was given out and none was returned. -/
structure SameIds (state after : IdContention count) : Prop where
  source_eq : after.source = state.source
  exchanges_eq : after.exchanges = state.exchanges
  returned_iff : ∀ call id, after.calls call = .returned id ↔ state.calls call = .returned id

/-- A call that has not returned may come further without returning. -/
theorem sameIds_advance {call : Fin count} {progress : IdCall} (hbefore : ∀ id, state.calls call ≠ .returned id)
    (hafter : ∀ id, progress ≠ .returned id) : state.SameIds (state.advance call progress) where
  source_eq := rfl
  exchanges_eq := rfl
  returned_iff other id := by
    by_cases hother : other = call
    · subst hother
      simp [advance, hbefore, hafter]
    · simp [advance, hother]

/-- A turn is an exchange that gives out the next id, or no id is given out. -/
theorem step_cases (state : IdContention count) (turn : IdTurn count) :
    (∃ now, state.calls turn.call = .trying now state.source.last ∧
      state.step turn = state.exchange turn.call now (state.source.next now).1) ∨ state.SameIds (state.step turn) := by
  cases hcall : state.calls turn.call with
  | waiting =>
    simp only [step, hcall]
    exact .inr (sameIds_advance (by simp [hcall]) (by simp))
  | begun now =>
    simp only [step, hcall]
    exact .inr (sameIds_advance (by simp [hcall]) (by simp))
  | trying now seen =>
    by_cases hsucceeds : seen = state.source.last ∧ turn.fails = false
    · simp only [step, hcall, if_pos hsucceeds]
      exact .inl ⟨now, by rw [hsucceeds.1], by rw [hsucceeds.1, IdSource.next_fst]⟩
    · simp only [step, hcall, if_neg hsucceeds]
      exact .inr (sameIds_advance (by simp [hcall]) (by simp))
  | returned id =>
    simp only [step, hcall]
    exact .inr ⟨rfl, rfl, fun _ _ => .rfl⟩

/-- The exchanges explain the source and the ids that calls have returned. -/
structure Explained (state : IdContention count) : Prop where
  /-- The source is what giving out ids at the times that the calls have read has left. -/
  source_eq : state.source = IdSource.fresh.after (state.exchanges.map IdExchange.now)
  ids_eq : state.exchanges.map IdExchange.id = IdSource.fresh.take (state.exchanges.map IdExchange.now)
  returned_iff : ∀ call id, state.calls call = .returned id ↔
    ∃ exchange ∈ state.exchanges, exchange.call = call ∧ exchange.id = id
  nodup : (state.exchanges.map IdExchange.call).Nodup

/-- At first there is nothing to explain. -/
theorem explained_initial (count : ℕ) : (initial count).Explained :=
  ⟨rfl, rfl, by simp [initial], List.nodup_nil⟩

/-- An exchange by a call that has not returned gives out the next id. -/
theorem Explained.exchange (h : state.Explained) {call : Fin count} (hcall : ∀ id, state.calls call ≠ .returned id)
    (now : Int64) : (state.exchange call now (state.source.next now).1).Explained where
  source_eq := by
    simp only [IdContention.exchange, List.map_append, List.map_singleton, IdSource.after, List.foldl_concat]
    rw [← IdSource.after, ← h.source_eq, IdSource.next_snd]
  ids_eq := by
    simp only [IdContention.exchange, List.map_append, List.map_singleton, IdSource.take_concat, h.ids_eq,
      ← h.source_eq]
  returned_iff other id := by
    simp only [IdContention.exchange, List.mem_append, List.mem_singleton, or_and_right, exists_or, exists_eq_left]
    rw [← h.returned_iff]
    by_cases hother : other = call
    · subst hother
      simp [hcall]
    · simp [hother, Ne.symm hother]
  nodup := by
    have hfree : call ∉ state.exchanges.map IdExchange.call := by
      intro hmem
      obtain ⟨earlier, hearlier, rfl⟩ := List.mem_map.1 hmem
      exact hcall earlier.id ((h.returned_iff _ _).2 ⟨earlier, hearlier, rfl, rfl⟩)
    simp only [IdContention.exchange, List.map_append, List.map_singleton]
    rw [← List.concat_eq_append]
    exact h.nodup.concat hfree

/-- As long as no id is given out, the same exchanges explain the ids. -/
theorem Explained.of_sameIds {after : IdContention count} (h : state.Explained) (hsame : state.SameIds after) :
    after.Explained where
  source_eq := by rw [hsame.source_eq, hsame.exchanges_eq, h.source_eq]
  ids_eq := by rw [hsame.exchanges_eq, h.ids_eq]
  returned_iff call id := by rw [hsame.returned_iff, hsame.exchanges_eq, h.returned_iff]
  nodup := by
    rw [hsame.exchanges_eq]
    exact h.nodup

/-- Every turn leaves exchanges that explain the ids. -/
theorem Explained.step (h : state.Explained) (turn : IdTurn count) : (state.step turn).Explained := by
  rcases state.step_cases turn with ⟨now, htrying, hstep⟩ | hsame
  · rw [hstep]
    exact h.exchange (by simp [htrying]) now
  · exact h.of_sameIds hsame

/-- Whatever turns are taken, the exchanges explain the ids. -/
theorem Explained.run (h : state.Explained) (turns : List (IdTurn count)) : (state.run turns).Explained := by
  induction turns generalizing state with
  | nil => exact h
  | cons turn turns ih => exact ih (h.step turn)

/-- Exchanges are never taken back. -/
theorem exchanges_prefix_run (state : IdContention count) (turns : List (IdTurn count)) :
    state.exchanges <+: (state.run turns).exchanges := by
  induction turns generalizing state with
  | nil => exact List.prefix_rfl
  | cons turn turns ih =>
    refine List.IsPrefix.trans ?_ (ih (state.step turn))
    rcases state.step_cases turn with ⟨now, -, hstep⟩ | hsame
    · rw [hstep]
      exact List.prefix_append _ _
    · rw [hsame.exchanges_eq]

/-- There are no more exchanges than calls. -/
theorem Explained.length_le (h : state.Explained) : state.exchanges.length ≤ count := by
  have hcard := h.nodup.length_le_card
  rwa [List.length_map, Fintype.card_fin] at hcard

/-- While there are fewer than 2^62 calls, the ids grow strictly from zero on, in the order of the exchanges. -/
theorem Explained.pairwise_ids (h : state.Explained) (hcount : count < 2 ^ 62) :
    (0 :: state.exchanges.map IdExchange.id).Pairwise (· < ·) := by
  have hlength := h.length_le
  rw [h.ids_eq, ← List.isChain_iff_pairwise]
  exact IdSource.isChain_take IdSource.isWithin_fresh (by rw [List.length_map]; omega)

/-- Every exchange gives out a greater id than those before it. -/
theorem Explained.pairwise (h : state.Explained) (hcount : count < 2 ^ 62) :
    state.exchanges.Pairwise fun earlier later => earlier.id < later.id :=
  List.pairwise_map.1 (List.pairwise_cons.1 (h.pairwise_ids hcount)).2

/-- Every id is at least 1, and at most so far above the greatest id of the clock as exchanges came before it. -/
theorem Explained.toInt_id_bounds (h : state.Explained) (hcount : count < 2 ^ 62) {n : ℕ}
    (hn : n < state.exchanges.length) :
    1 ≤ state.exchanges[n].id.toInt ∧ state.exchanges[n].id.toInt ≤ (2 ^ 41 - 1) * 2 ^ 12 + n := by
  have hlength := h.length_le
  have hmem : state.exchanges[n].id ∈ state.exchanges.map IdExchange.id :=
    List.mem_map_of_mem (List.getElem_mem hn)
  constructor
  · have hpositive := (List.pairwise_cons.1 (h.pairwise_ids hcount)).1 _ hmem
    rwa [Int64.lt_iff_toInt_lt] at hpositive
  · have hids : (state.exchanges.map IdExchange.id)[n]? = some state.exchanges[n].id := by simp [hn]
    rw [h.ids_eq] at hids
    obtain ⟨hplace, hid⟩ := List.getElem?_eq_some_iff.1 hids
    have hroom : 0 + (state.exchanges.map IdExchange.now).length ≤ 2 ^ 62 := by
      rw [List.length_map]
      omega
    have hle := IdSource.toInt_getElem_take_le IdSource.isWithin_fresh hroom hplace
    rw [hid] at hle
    simpa using hle

/-- Two calls do not return the same id. -/
theorem Explained.call_eq (h : state.Explained) (hcount : count < 2 ^ 62) {a b : Fin count} {id : Int64}
    (ha : state.calls a = .returned id) (hb : state.calls b = .returned id) : a = b := by
  obtain ⟨first, hfirst, rfl, hid⟩ := (h.returned_iff a id).1 ha
  obtain ⟨second, hsecond, rfl, rfl⟩ := (h.returned_iff b id).1 hb
  have hids : (state.exchanges.map IdExchange.id).Nodup :=
    List.pairwise_map.2 ((h.pairwise hcount).imp Int64.ne_of_lt)
  rw [List.inj_on_of_nodup_map hids hfirst hsecond hid]

/-- A call that has not returned yet when another one has will return a greater id. -/
theorem Explained.lt_of_returned_later (h : state.Explained) (hcount : count < 2 ^ 62) {turns : List (IdTurn count)}
    {a b : Fin count} {first second : Int64} (ha : state.calls a = .returned first)
    (hpending : ∀ id, state.calls b ≠ .returned id) (hb : (state.run turns).calls b = .returned second) :
    first < second := by
  have hafter := h.run turns
  obtain ⟨more, hmore⟩ := state.exchanges_prefix_run turns
  obtain ⟨earlier, hearlier, -, rfl⟩ := (h.returned_iff a first).1 ha
  obtain ⟨later, hlater, rfl, rfl⟩ := (hafter.returned_iff b second).1 hb
  have hincreasing := hafter.pairwise hcount
  rw [← hmore] at hincreasing hlater
  -- The pending call made none of the exchanges so far, so its own is one of those that follow.
  rcases List.mem_append.1 hlater with hold | hnew
  · exact absurd ((h.returned_iff _ _).2 ⟨later, hold, rfl, rfl⟩) (hpending _)
  · exact (List.pairwise_append.1 hincreasing).2.2 earlier hearlier later hnew

/-- Fewer than 2^62 calls for an id take turns in any order, while the clock shows what it likes and exchanges fail as
they like. Then the ids that calls return are those of the exchanges. In the order of these the source gives them out at
the times that the calls have read, and they grow strictly. Each is at least 1, and at most as many above the greatest id
of the clock as exchanges came before. No two calls return the same id, and a call that begins after another one has
returned returns a greater id. -/
theorem ids_increase (hcount : count < 2 ^ 62) (turns : List (IdTurn count)) :
    let after := (initial count).run turns
    (∀ call id, after.calls call = .returned id ↔
        ∃ exchange ∈ after.exchanges, exchange.call = call ∧ exchange.id = id) ∧
      after.exchanges.map IdExchange.id = IdSource.fresh.take (after.exchanges.map IdExchange.now) ∧
      (after.exchanges.Pairwise fun earlier later => earlier.id < later.id) ∧
      (∀ n, (hn : n < after.exchanges.length) → 1 ≤ after.exchanges[n].id.toInt ∧
        after.exchanges[n].id.toInt ≤ (2 ^ 41 - 1) * 2 ^ 12 + n) ∧
      (∀ a b id, after.calls a = .returned id → after.calls b = .returned id → a = b) ∧
      ∀ earlier later, earlier ++ later = turns → ∀ a b first second,
        ((initial count).run earlier).calls a = .returned first → ((initial count).run earlier).calls b = .waiting →
          after.calls b = .returned second → first < second := by
  intro after
  have hafter : after.Explained := (explained_initial count).run turns
  refine ⟨hafter.returned_iff, hafter.ids_eq, hafter.pairwise hcount, fun n hn => hafter.toInt_id_bounds hcount hn,
    fun a b id => hafter.call_eq hcount, ?_⟩
  rintro earlier later rfl a b first second ha hb hsecond
  have hbefore : ((initial count).run earlier).Explained := (explained_initial count).run earlier
  have hpending : ∀ id, ((initial count).run earlier).calls b ≠ .returned id := by simp [hb]
  have hlater : ((initial count).run earlier).run later = after := (run_append _ _ _).symm
  exact hbefore.lt_of_returned_later hcount ha hpending (hlater ▸ hsecond)

/-- Two calls look at the cell before either of them tries. The second reads a time before 2024, and its first exchange
fails for no reason; its next one lets the exchange of the first call fail. -/
private def overtaking : List (IdTurn 3) :=
  [⟨0, 1704067200005, false⟩, ⟨0, 0, false⟩, ⟨1, 1704067199999, false⟩, ⟨1, 0, false⟩, ⟨1, 0, true⟩, ⟨1, 0, false⟩,
    ⟨0, 0, false⟩, ⟨0, 0, false⟩]

/-- A third call begins after both have returned. -/
private def following : List (IdTurn 3) := [⟨2, 1704067200006, false⟩, ⟨2, 0, false⟩, ⟨2, 0, false⟩]

/-- The call that was overtaken gets the id after the one that overtook it, and the call that begins last gets the
greatest id. -/
theorem ids_increase_overtaken :
    3 < 2 ^ 62 ∧
      (((initial 3).run (overtaking ++ following)).exchanges.map fun exchange => (exchange.call, exchange.id)) =
        [(1, 9007199254736896), (0, 9007199254736897), (2, 9007199254736898)] ∧
      ∃ first second, ((initial 3).run overtaking).calls 0 = .returned first ∧
        ((initial 3).run (overtaking ++ following)).calls 2 = .returned second ∧ first < second := by
  have hfirst : ((initial 3).run overtaking).calls 0 = .returned 9007199254736897 := by decide +kernel
  have hwaiting : ((initial 3).run overtaking).calls 2 = .waiting := by decide +kernel
  have hsecond : ((initial 3).run (overtaking ++ following)).calls 2 = .returned 9007199254736898 := by
    decide +kernel
  have hcount : 3 < 2 ^ 62 := by decide
  obtain ⟨-, -, -, -, -, hlater⟩ := ids_increase hcount (overtaking ++ following)
  exact ⟨hcount, by decide +kernel, _, _, hfirst, hsecond, hlater _ _ rfl 0 2 _ _ hfirst hwaiting hsecond⟩

end IdContention

end TradeIn
