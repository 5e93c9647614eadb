import Uplink.Proofs.Pool.Accounts

/-!
# The end of a pool comes

Once the deadline has come, who waits for the end of a pool dismisses the workers one after the
other. Each of them leaves at its next turn, whatever it is at. So as long as the workers and who
waits for them have their turns, the end comes, and the number of the workers says how soon.
-/

namespace Uplink.Pool

variable {κ : Type}

/-! ## 1. The turns of workers -/

theorem worker_take_of_ne {p : Pool κ} {i j : Nat} (h : j ≠ i) :
    (p.take i).2.worker j = p.worker j := by
  rw [take]
  split
  · split
    · exact worker_setWorker_of_ne (p := { p with active := _, started := _ }) h _
    · split
      · exact worker_setWorker_of_ne (p := (p.leaveLine i).2) h _
      · rfl
  · rfl

theorem worker_turn_of_ne {p : Pool κ} {i j : Nat} (h : j ≠ i) :
    (p.turn i).2.worker j = p.worker j := by
  have hleave (left : Option Nat) : (p.leave i left).2.worker j = p.worker j :=
    worker_setWorker_of_ne (p := (p.leaveLine i).2) h _
  have hline : (({ p with line := p.line ++ [i] }.setWorker i .inLine).take i).2.worker j =
      p.worker j :=
    (worker_take_of_ne h).trans (worker_setWorker_of_ne h _)
  rw [turn]
  split
  · rfl
  · split
    · exact hleave none
    · exact hline
  · split
    · exact hleave none
    · exact worker_take_of_ne h
  · split
    · exact hleave _
    · split
      · rfl
      · exact hline

/-- Who left does not come back. -/
theorem isGone_turn {p : Pool κ} {i : Nat} (h : (p.worker i).isGone = true) (j : Nat) :
    ((p.turn j).2.worker i).isGone = true := by
  by_cases hij : i = j
  · subst hij
    obtain ⟨left, hi⟩ := Worker.isGone_iff.1 h
    rw [turn, hi]
    exact h
  · rw [worker_turn_of_ne hij]
    exact h

/-- Who is dismissed leaves at its next turn. -/
theorem isGone_turn_of_dismissed {p : Pool κ} {i : Nat} (h : i ∈ p.dismissed) :
    ((p.turn i).2.worker i).isGone = true := by
  have hleave (hthere : (p.worker i).isGone = false) (left : Option Nat) :
      ((p.leave i left).2.worker i).isGone = true := by
    have hlt : i < p.size := lt_size_of_worker fun hgone => by rw [hgone] at hthere; cases hthere
    have hself : (p.leave i left).2.worker i = .gone left :=
      worker_setWorker_self (p := (p.leaveLine i).2) hlt _
    rw [hself]
    rfl
  rw [turn]
  split
  · next left hi =>
    rw [hi]
    rfl
  all_goals
    next hi =>
      rw [if_pos h]
      exact hleave (by rw [hi]; rfl) _

/-! ## 2. The turn of who waits -/

/-- All workers have been seen off, or one of them has not left yet. That one is dismissed when the
deadline has come. -/
theorem seeOff_cases (deadline now : Nat) (workers : List Nat) (p : Pool κ) :
    let q := (seeOff deadline now workers p).2
    p.dismissed ⊆ q.dismissed ∧
      (q.drain = none ∨ ∃ i rest, q.drain = some ⟨deadline, i :: rest⟩ ∧ i :: rest <:+ workers ∧
        (p.worker i).isGone = false ∧ (deadline ≤ now → i ∈ q.dismissed)) := by
  induction workers generalizing p with
  | nil => exact ⟨fun _ => id, .inl rfl⟩
  | cons i rest ih =>
    rw [seeOff]
    split
    · next left hi =>
      -- The first one left. Nobody moves or is dismissed when its job is stopped.
      have hworker (j : Nat) : (left.elim p p.stop).worker j = p.worker j := by cases left <;> rfl
      have hdismissed : (left.elim p p.stop).dismissed = p.dismissed := by cases left <;> rfl
      obtain ⟨hkept, hrest⟩ := ih (left.elim p p.stop)
      rw [hdismissed] at hkept
      refine ⟨hkept, hrest.imp_right ?_⟩
      rintro ⟨j, others, hdrain, hsuffix, hthere, hlast⟩
      rw [hworker] at hthere
      exact ⟨j, others, hdrain, hsuffix.trans (List.suffix_cons ..), hthere, hlast⟩
    · next hi =>
      have hthere : (p.worker i).isGone = false := Bool.eq_false_iff.2 fun hgone => by
        obtain ⟨left, heq⟩ := Worker.isGone_iff.1 hgone
        exact hi left heq
      dsimp only
      split
      · exact ⟨List.subset_append_left .., .inr ⟨i, rest, rfl, List.suffix_rfl, hthere,
          fun _ => List.mem_append_right _ (List.mem_singleton.2 rfl)⟩⟩
      · next hearly =>
        exact ⟨fun _ => id, .inr ⟨i, rest, rfl, List.suffix_rfl, hthere,
          fun hle => absurd hle hearly⟩⟩

theorem closing_cases (p : Pool κ) (now : Nat) :
    let q := (p.closing now).2
    p.dismissed ⊆ q.dismissed ∧
      (q.drain = none ∨ ∃ d i rest, p.drain = some d ∧ q.drain = some ⟨d.deadline, i :: rest⟩ ∧
        i :: rest <:+ p.awaited ∧ (p.worker i).isGone = false ∧
        (d.deadline ≤ now → i ∈ q.dismissed)) := by
  rw [closing, awaited]
  cases hdrain : p.drain with
  | none => exact ⟨fun _ => id, .inl hdrain⟩
  | some d =>
    obtain ⟨hkept, hwho⟩ := seeOff_cases d.deadline now d.workers p
    refine ⟨hkept, hwho.imp_right ?_⟩
    rintro ⟨i, rest, h⟩
    exact ⟨d, i, rest, rfl, h⟩

namespace Book

/-! ## 3. What every event keeps -/

/-- The deadline has come, and if a worker is left, the first of those is dismissed. -/
structure Presses (b : Book κ) : Prop where
  late : b.IsLate b.now
  first : ∀ d, b.pool.drain = some d → ∃ i rest, d.workers = i :: rest ∧ i ∈ b.pool.dismissed

/-- The deadline has come, and nothing that was done towards the end of the pool is undone. -/
structure Nears (b b' : Book κ) : Prop where
  late : b'.IsLate b'.now
  gone : ∀ i, (b.pool.worker i).isGone = true → (b'.pool.worker i).isGone = true
  dismissed : b.pool.dismissed ⊆ b'.pool.dismissed
  awaited : b'.pool.awaited <:+ b.pool.awaited
  presses : b.Presses → b'.Presses

theorem Nears.refl {b : Book κ} (h : b.IsLate b.now) : Nears b b :=
  ⟨h, fun _ => id, fun _ => id, List.suffix_rfl, id⟩

theorem Nears.trans {b b' b'' : Book κ} (h : Nears b b') (h' : Nears b' b'') : Nears b b'' :=
  ⟨h'.late, fun i hgone => h'.gone i (h.gone i hgone), fun _ hi => h'.dismissed (h.dismissed hi),
    h'.awaited.trans h.awaited, fun hp => h'.presses (h.presses hp)⟩

namespace Balances

variable {size : Nat} {b : Book κ}

theorem closed_of_late (h : Balances size b) (hlate : b.IsLate b.now) : b.pool.closed = true := by
  obtain ⟨d, hd, -⟩ := hlate
  rw [h.begun, hd]
  rfl

/-- What a look at the workers comes to once the deadline has come. -/
theorem look_cases (h : Balances size b) (hlate : b.IsLate b.now) :
    (b.after .look).pool.drain = none ∨ ∃ d i rest,
      (b.after .look).pool.drain = some ⟨d, i :: rest⟩ ∧ i :: rest <:+ b.pool.awaited ∧
        (b.pool.worker i).isGone = false ∧ i ∈ (b.after .look).pool.dismissed := by
  refine (closing_cases b.pool b.now).2.imp_right ?_
  rintro ⟨d, i, rest, hd, hdrain, hsuffix, hthere, hdismissed⟩
  refine ⟨d.deadline, i, rest, hdrain, hsuffix, hthere, hdismissed ?_⟩
  obtain ⟨deadline, hdeadline, hle⟩ := hlate
  rw [h.drain d hd] at hdeadline
  exact Option.some.inj hdeadline ▸ hle

theorem presses_look (h : Balances size b) (hlate : b.IsLate b.now) : (b.after .look).Presses := by
  refine ⟨hlate, fun d hd => ?_⟩
  rcases h.look_cases hlate with hnone | ⟨deadline, i, rest, hdrain, -, -, hdismissed⟩
  · rw [hnone] at hd
    cases hd
  · rw [hdrain] at hd
    exact ⟨i, rest, Option.some.inj hd ▸ rfl, hdismissed⟩

theorem nears_look (h : Balances size b) (hlate : b.IsLate b.now) : Nears b (b.after .look) := by
  refine ⟨hlate, fun i hgone => ?_, (closing_cases b.pool b.now).1, ?_,
    fun _ => h.presses_look hlate⟩
  · show ((b.pool.closing b.now).2.worker i).isGone = true
    rcases closing_eq_or_seesOff b.pool b.now with ⟨-, hsame⟩ | ⟨d, -, hs⟩
    · rwa [hsame]
    · rwa [hs.worker]
  · rw [awaited]
    rcases h.look_cases hlate with hnone | ⟨d, i, rest, hdrain, hsuffix, -⟩
    · rw [hnone]
      exact List.nil_suffix
    · rw [hdrain]
      exact hsuffix

theorem nears_turn (hlate : b.IsLate b.now) (i : Nat) : Nears b (b.after (.turn i)) := by
  have hworks := Works.turn b.pool i
  have hdismissed : (b.after (.turn i)).pool.dismissed = b.pool.dismissed := hworks.dismissed
  have hdrain : (b.after (.turn i)).pool.drain = b.pool.drain := hworks.drain
  refine ⟨hlate, fun j hgone => isGone_turn hgone i, ?_, ?_, fun hp => ⟨hlate, ?_⟩⟩
  · rw [hdismissed]
    exact fun _ => id
  · rw [awaited, hdrain]
    exact List.suffix_rfl
  · rw [hdismissed, hdrain]
    exact hp.first

theorem nears (h : Balances size b) (hlate : b.IsLate b.now) (e : Event κ) :
    Nears b (b.after e) := by
  have hclosed := h.closed_of_late hlate
  cases e with
  | submit job =>
    rw [Book.after, Pool.submit, if_pos hclosed]
    exact .refl hlate
  | turn i => exact nears_turn hlate i
  | finish number failed =>
    rw [Book.after]
    split
    · exact ⟨hlate, fun _ => id, fun _ => id, List.suffix_rfl, fun hp => ⟨hlate, hp.first⟩⟩
    · exact .refl hlate
  | pass ms =>
    have hlater : (b.after (.pass ms)).IsLate (b.now + ms) := by
      obtain ⟨d, hd, hle⟩ := hlate
      exact ⟨d, hd, Nat.le_add_right_of_le hle⟩
    exact ⟨hlater, fun _ => id, fun _ => id, List.suffix_rfl, fun hp => ⟨hlater, hp.first⟩⟩
  | close grace =>
    rw [Book.after, if_pos hclosed]
    exact .refl hlate
  | look => exact h.nears_look hlate

theorem nears_foldl (h : Balances size b) (hlate : b.IsLate b.now) (events : List (Event κ)) :
    Nears b (events.foldl Book.after b) := by
  induction events generalizing b with
  | nil => exact .refl hlate
  | cons e events ih =>
    have hnext := h.nears hlate e
    exact hnext.trans (ih (h.after e) hnext.late)

/-! ## 4. Rounds -/

/-- A worker that is dismissed and has its turn leaves for good. -/
theorem isGone_of_turn (h : Balances size b) (hlate : b.IsLate b.now) {i : Nat}
    (hi : i ∈ b.pool.dismissed) {events : List (Event κ)} (hturn : .turn i ∈ events) :
    ((events.foldl Book.after b).pool.worker i).isGone = true := by
  obtain ⟨before, since, rfl⟩ := List.append_of_mem hturn
  have hbefore := h.nears_foldl hlate before
  have hbalances := h.foldl before
  rw [List.foldl_append, List.foldl_cons]
  refine ((hbalances.after _).nears_foldl (nears_turn hbefore.late i).late since).gone i ?_
  exact isGone_turn_of_dismissed (hbefore.dismissed hi)

end Balances

end Book

/-- Each of a number of workers has its turn, in any order, and after that who waits for the end has
one. Anything else may happen as well. -/
def IsRound (workers : Nat) (events : List (Event κ)) : Prop :=
  ∃ before since, events = before ++ .look :: since ∧ ∀ i < workers, .turn i ∈ before

namespace Book.Balances

variable {size : Nat} {b : Book κ}

/-- In every round a worker is seen off, as long as there is one. -/
theorem length_awaited_lt (h : Balances size b) (hp : b.Presses) (hdrain : b.pool.drain ≠ none)
    {events : List (Event κ)} (hround : IsRound (max size 1) events) :
    (events.foldl Book.after b).pool.awaited.length < b.pool.awaited.length := by
  obtain ⟨before, since, rfl, hturns⟩ := hround
  obtain ⟨d, hd⟩ := Option.ne_none_iff_exists'.1 hdrain
  obtain ⟨i, rest, hworkers, hi⟩ := hp.first d hd
  have hawaited : b.pool.awaited = i :: rest := by rw [awaited, hd]; exact hworkers
  have hbefore := h.nears_foldl hp.late before
  have hbalances := h.foldl before
  have hgone : ((before.foldl Book.after b).pool.worker i).isGone = true := by
    by_cases hlt : i < max size 1
    · exact h.isGone_of_turn hp.late hi (hturns i hlt)
    · rw [← hbalances.size] at hlt
      rw [Decidable.not_imp_comm.1 lt_size_of_worker hlt]
      rfl
  have hlook := hbalances.nears_look hbefore.late
  have hsince := (hbalances.after .look).nears_foldl hlook.late since
  rw [List.foldl_append, List.foldl_cons]
  refine Nat.lt_of_le_of_lt hsince.awaited.length_le ?_
  rw [hawaited, List.length_cons]
  rcases hbalances.look_cases hbefore.late with hnone | ⟨_, j, others, hleft, hsuffix, hthere, -⟩
  · rw [awaited, hnone]
    exact Nat.succ_pos _
  · -- Who has not left is not the one that was the first.
    rw [awaited, hleft]
    have hshorter := hsuffix.trans hbefore.awaited
    rw [hawaited, List.suffix_cons_iff] at hshorter
    rcases hshorter with hsame | hshorter
    · rw [(List.cons.inj hsame).1, hgone] at hthere
      cases hthere
    · exact Nat.lt_succ_of_le hshorter.length_le

/-- Once the end has come, it stays so. -/
theorem isSome_returned_foldl (h : Balances size b) (hreturned : b.returned.isSome = true)
    (events : List (Event κ)) : (events.foldl Book.after b).returned.isSome = true := by
  obtain ⟨now, hsame⟩ := h.foldl_eq_of_returned hreturned events
  rw [hsame]
  exact hreturned

theorem presses_of_isRound (h : Balances size b) (hlate : b.IsLate b.now) {n : Nat}
    {events : List (Event κ)} (hround : IsRound n events) :
    (events.foldl Book.after b).Presses := by
  obtain ⟨before, since, rfl, -⟩ := hround
  have hbefore := h.nears_foldl hlate before
  have hlook := (h.foldl before).presses_look hbefore.late
  rw [List.foldl_append, List.foldl_cons]
  exact (((h.foldl before).after .look).nears_foldl hlook.late since).presses hlook

theorem isSome_returned_of_presses (h : Balances size b) (hp : b.Presses)
    {rounds : List (List (Event κ))} (hrounds : ∀ r ∈ rounds, IsRound (max size 1) r)
    (hlength : b.pool.awaited.length ≤ rounds.length) :
    (rounds.flatten.foldl Book.after b).returned.isSome = true := by
  induction rounds generalizing b with
  | nil =>
    -- Nobody is left.
    refine h.returned.2 ⟨h.closed_of_late hp.late, ?_⟩
    cases hdrain : b.pool.drain with
    | none => rfl
    | some d =>
      obtain ⟨i, rest, hworkers, -⟩ := hp.first d hdrain
      rw [awaited, hdrain, Option.elim_some, hworkers] at hlength
      cases hlength
  | cons r rounds ih =>
    rw [List.flatten_cons, List.foldl_append]
    have hround := hrounds r List.mem_cons_self
    by_cases hdrain : b.pool.drain = none
    · have hreturned := h.returned.2 ⟨h.closed_of_late hp.late, hdrain⟩
      exact (h.foldl r).isSome_returned_foldl (h.isSome_returned_foldl hreturned r) _
    · have hless := h.length_awaited_lt hp hdrain hround
      rw [List.length_cons] at hlength
      exact ih (h.foldl r) (h.presses_of_isRound hp.late hround)
        (fun r' hr' => hrounds r' (List.mem_cons_of_mem _ hr')) (by omega)

/-- No more workers are waited for than there are. -/
theorem length_awaited_after (h : Balances size b) (hle : b.pool.awaited.length ≤ max size 1)
    (e : Event κ) : (b.after e).pool.awaited.length ≤ max size 1 := by
  cases e with
  | submit job =>
    rw [Book.after, Pool.submit]
    by_cases hclosed : b.pool.closed = true
    · rw [if_pos hclosed]
      exact hle
    · rw [if_neg hclosed]
      by_cases hfull : queueDepth * b.pool.size ≤ b.pool.queue.length
      · rw [if_pos hfull]
        exact hle
      · rw [if_neg hfull]
        exact hle
  | turn i =>
    show (b.pool.turn i).2.awaited.length ≤ _
    rw [awaited, (Works.turn b.pool i).drain]
    exact hle
  | finish number failed =>
    rw [Book.after]
    split <;> exact hle
  | pass ms => exact hle
  | close grace =>
    rw [Book.after]
    split
    · exact hle
    · show (List.range b.pool.size).length ≤ _
      rw [List.length_range, h.size]
  | look =>
    show (b.pool.closing b.now).2.awaited.length ≤ _
    rcases (closing_cases b.pool b.now).2 with hnone | ⟨d, i, rest, -, hdrain, hsuffix, -⟩
    · rw [awaited, hnone]
      exact Nat.zero_le _
    · rw [awaited, hdrain]
      exact Nat.le_trans hsuffix.length_le hle

theorem length_awaited_foldl (h : Balances size b) (hle : b.pool.awaited.length ≤ max size 1)
    (events : List (Event κ)) :
    (events.foldl Book.after b).pool.awaited.length ≤ max size 1 := by
  induction events generalizing b with
  | nil => exact hle
  | cons e events ih => exact ih (h.after e) (h.length_awaited_after hle e)

end Book.Balances

/-- **The end of a pool comes.** Whatever happened before the deadline and whatever else happens
after it: once there have been more rounds than there are workers, the end has come, although jobs
may never be over. -/
theorem returned_of_rounds (size : Nat) (events : List (Event κ))
    (hlate : (Book.ofEvents size events).IsLate (Book.ofEvents size events).now)
    {rounds : List (List (Event κ))} (hrounds : ∀ r ∈ rounds, IsRound (max size 1) r)
    (hlength : max size 1 < rounds.length) :
    (Book.ofEvents size (events ++ rounds.flatten)).returned.isSome = true := by
  have h := Book.balances_ofEvents size events
  have hawaited : (Book.ofEvents size events).pool.awaited.length ≤ max size 1 :=
    (Book.balances_new size).length_awaited_foldl (Nat.zero_le _) events
  rw [Book.ofEvents, List.foldl_append]
  cases rounds with
  | nil => cases hlength
  | cons r rounds =>
    -- In the first round a worker is dismissed.
    have hround := hrounds r List.mem_cons_self
    have hnears := h.nears_foldl hlate r
    have hshorter := hnears.awaited.length_le
    rw [List.length_cons] at hlength
    rw [List.flatten_cons, List.foldl_append]
    exact (h.foldl r).isSome_returned_of_presses (h.presses_of_isRound hlate hround)
      (fun r' hr' => hrounds r' (List.mem_cons_of_mem _ hr')) (by omega)

/-- Two workers whose jobs are never over. -/
example :
    let events : List (Event Char) :=
      [.submit 'a', .submit 'b', .turn 0, .turn 1, .close 5, .pass 5]
    let round : List (Event Char) := [.turn 1, .turn 0, .look]
    (Book.ofEvents 2 (events ++ [round, round, round].flatten)).returned = some 5 := by
  decide

end Uplink.Pool
