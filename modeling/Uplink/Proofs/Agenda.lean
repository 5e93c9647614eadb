import Uplink.Agenda

/-!
# What agendas do

Whose turn comes was ready, and everybody else who was ready stays so. A ring makes those ready whose
alarms have come. A world in which every turn takes some of the effort away that is left comes to an
end.
-/

namespace Uplink

/-! ## 1. Entries of activities -/

section

variable {κ α : Type} [BEq κ] [LawfulBEq κ] [DecidableEq κ]

theorem lookup_filter_ne (k other : κ) (entries : List (κ × α)) :
    (entries.filter (·.1 != k)).lookup other =
      if other = k then none else entries.lookup other := by
  induction entries with
  | nil => simp
  | cons e entries ih =>
    by_cases he : e.1 = k
    · rw [List.filter_cons_of_neg (by simp [he]), ih, List.lookup_cons]
      split
      · rfl
      · next hne => rw [beq_false_of_ne fun h => hne (h.trans he)]
    · rw [List.filter_cons_of_pos (by simp [he]), List.lookup_cons, List.lookup_cons, ih]
      by_cases ho : other = e.1
      · simp only [ho, beq_self_eq_true, if_neg he]
      · rw [beq_false_of_ne ho]

/-- An entry takes the place of the one that there was. -/
theorem lookup_filter_ne_append (k other : κ) (v : α) (entries : List (κ × α)) :
    (entries.filter (·.1 != k) ++ [(k, v)]).lookup other =
      if other = k then some v else entries.lookup other := by
  rw [List.lookup_append, lookup_filter_ne]
  by_cases h : other = k
  · rw [if_pos h, if_pos h, h, List.lookup_cons_self]
    rfl
  · rw [if_neg h, if_neg h, List.lookup_cons, beq_false_of_ne h]
    exact Option.or_none

end

namespace Agenda

variable {κ : Type} [DecidableEq κ]

/-! ## 2. Waking -/

theorem wake_eq (k : κ) (a : Agenda κ) : a.wake k = { a with ready := (a.wake k).ready } := by
  rw [wake]
  split <;> rfl

theorem mem_ready_wake {k other : κ} {a : Agenda κ} :
    other ∈ (a.wake k).ready ↔ other ∈ a.ready ∨ other = k := by
  rw [wake]
  split
  · next hmem =>
    constructor
    · exact .inl
    · rintro (h | rfl)
      · exact h
      · exact hmem
  · simp

theorem length_ready_wake_le (k : κ) (a : Agenda κ) :
    (a.wake k).ready.length ≤ a.ready.length + 1 := by
  rw [wake]
  split
  · omega
  · simp

theorem wakeAll_eq (ks : List κ) (a : Agenda κ) :
    a.wakeAll ks = { a with ready := (a.wakeAll ks).ready } := by
  induction ks generalizing a with
  | nil => rfl
  | cons k ks ih =>
    show (a.wake k).wakeAll ks = { a with ready := ((a.wake k).wakeAll ks).ready }
    rw [ih (a.wake k), wake_eq k a]

theorem mem_ready_wakeAll {ks : List κ} {other : κ} {a : Agenda κ} :
    other ∈ (a.wakeAll ks).ready ↔ other ∈ a.ready ∨ other ∈ ks := by
  induction ks generalizing a with
  | nil => simp [wakeAll]
  | cons k ks ih =>
    show other ∈ ((a.wake k).wakeAll ks).ready ↔ _
    rw [ih, mem_ready_wake, List.mem_cons, or_assoc]

theorem length_ready_wakeAll_le (ks : List κ) (a : Agenda κ) :
    (a.wakeAll ks).ready.length ≤ a.ready.length + ks.length := by
  induction ks generalizing a with
  | nil => exact Nat.le_refl _
  | cons k ks ih =>
    have hrest := ih (a.wake k)
    have hwake := length_ready_wake_le k a
    rw [List.length_cons]
    show ((a.wake k).wakeAll ks).ready.length ≤ _
    omega

/-- To wake those who are awake makes no difference. -/
theorem wakeAll_of_subset {ks : List κ} {a : Agenda κ} (h : ∀ k ∈ ks, k ∈ a.ready) :
    a.wakeAll ks = a := by
  induction ks with
  | nil => rfl
  | cons k ks ih =>
    show (a.wake k).wakeAll ks = a
    rw [wake, if_pos (h k List.mem_cons_self)]
    exact ih fun k' hk' => h k' (List.mem_cons_of_mem _ hk')

/-- To wake somebody several times is to wake him once. -/
theorem length_ready_wakeAll_le_one {ks : List κ} {k : κ} (h : ∀ other ∈ ks, other = k)
    (a : Agenda κ) : (a.wakeAll ks).ready.length ≤ a.ready.length + 1 := by
  cases ks with
  | nil => exact Nat.le_succ _
  | cons other ks =>
    obtain rfl := h other List.mem_cons_self
    have hagain : (a.wake other).wakeAll ks = a.wake other :=
      wakeAll_of_subset fun k' hk' =>
        mem_ready_wake.2 (.inr (h k' (List.mem_cons_of_mem _ hk')))
    show ((a.wake other).wakeAll ks).ready.length ≤ _
    rw [hagain]
    exact length_ready_wake_le other a

/-! ## 3. The next turn -/

/-- A turn is taken from an agenda: it was due, the others that were due still are, and nothing else
is planned anew. -/
structure TurnOf (k : κ) (a a' : Agenda κ) : Prop where
  due : k ∈ a.ready
  others : ∀ other ∈ a.ready, other ≠ k → other ∈ a'.ready
  length : a'.ready.length < a.ready.length
  alarms : a'.alarms = a.alarms
  now : a'.now = a.now

theorem mem_background {a : Agenda κ} {k : κ} :
    k ∈ a.ready.filter (!a.inForeground ·) ↔ k ∈ a.ready ∧ a.foreground ≠ some k := by
  rw [List.mem_filter, inForeground, Bool.not_eq_true', beq_eq_false_iff_ne]

theorem foreground_or_mem_background {a : Agenda κ} {k : κ} (h : k ∈ a.ready) :
    a.foreground = some k ∨ k ∈ a.ready.filter (!a.inForeground ·) :=
  Decidable.or_iff_not_imp_left.2 fun hown => mem_background.2 ⟨h, hown⟩

theorem length_background_lt {a : Agenda κ} {own : κ} (hown : a.foreground = some own)
    (hmem : own ∈ a.ready) : (a.ready.filter (!a.inForeground ·)).length < a.ready.length :=
  List.length_filter_lt_length_iff_exists.2 ⟨own, hmem, by simp [inForeground, hown]⟩

theorem foreground_of_filter {a : Agenda κ} {own : κ}
    (h : a.foreground.filter (· ∈ a.ready) = some own) :
    a.foreground = some own ∧ own ∈ a.ready :=
  (Option.filter_eq_some_iff.1 h).imp_right of_decide_eq_true

theorem turnOf_of_next? {a a' : Agenda κ} {k : κ} (h : a.next? = some (k, a')) : TurnOf k a a' := by
  rw [next?] at h
  -- The foreground has its turn if nobody else is ready, or if it was passed over long enough.
  split at h
  · cases h
  · next own hfilter hnobody =>
    obtain ⟨hown, hmem⟩ := foreground_of_filter hfilter
    obtain ⟨rfl, rfl⟩ := Prod.mk.inj (Option.some.inj h)
    refine ⟨hmem, fun other hother hne => ?_, ?_, rfl, rfl⟩
    · rcases foreground_or_mem_background hother with heq | hin
      · exact absurd (Option.some.inj (heq.symm.trans hown)) hne
      · rw [hnobody] at hin
        cases hin
    · exact List.length_pos_of_mem hmem
  · next other rest hfilter hsome =>
    obtain ⟨rfl, rfl⟩ := Prod.mk.inj (Option.some.inj h)
    refine ⟨(mem_background.1 (hsome ▸ List.mem_cons_self)).1, fun other' hother' hne => ?_, ?_, rfl, rfl⟩
    · rcases foreground_or_mem_background hother' with heq | hin
      · rw [heq, Option.filter_some, if_pos (decide_eq_true hother')] at hfilter
        cases hfilter
      · rw [hsome] at hin
        exact (List.mem_cons.1 hin).resolve_left hne
    · have hlength : (a.ready.filter (!a.inForeground ·)).length ≤ a.ready.length :=
        List.length_filter_le ..
      rw [hsome, List.length_cons] at hlength
      exact hlength
  · next own other rest hfilter hsome =>
    obtain ⟨hown, hmem⟩ := foreground_of_filter hfilter
    have hlt := length_background_lt hown hmem
    split at h
    · obtain ⟨rfl, rfl⟩ := Prod.mk.inj (Option.some.inj h)
      refine ⟨(mem_background.1 (hsome ▸ List.mem_cons_self)).1, fun other' hother' hne => ?_, ?_, rfl, rfl⟩
      · rcases foreground_or_mem_background hother' with heq | hin
        · rw [Option.some.inj (heq.symm.trans hown)]
          simp
        · rw [hsome] at hin
          exact List.mem_append_left _ ((List.mem_cons.1 hin).resolve_left hne)
      · rw [hsome, List.length_cons] at hlt
        rw [List.length_append, List.length_singleton]
        exact hlt
    · obtain ⟨rfl, rfl⟩ := Prod.mk.inj (Option.some.inj h)
      refine ⟨hmem, fun other' hother' hne => ?_, hlt, rfl, rfl⟩
      rcases foreground_or_mem_background hother' with heq | hin
      · exact absurd (Option.some.inj (heq.symm.trans hown)) hne
      · exact hin

theorem next?_eq_none_iff {a : Agenda κ} : a.next? = none ↔ a.ready = [] := by
  constructor
  · intro h
    rw [next?] at h
    split at h
    · next hfilter hnobody =>
      refine List.eq_nil_iff_forall_not_mem.2 fun k hk => ?_
      rw [List.filter_eq_nil_iff] at hnobody
      have hown : a.foreground = some k := by simpa [inForeground] using hnobody k hk
      rw [hown, Option.filter_some, if_pos (decide_eq_true hk)] at hfilter
      cases hfilter
    · cases h
    · cases h
    · split at h <;> cases h
  · intro h
    cases hnext : a.next? with
    | none => rfl
    | some p =>
      have hturn : TurnOf p.1 a p.2 := turnOf_of_next? hnext
      have hdue := hturn.due
      rw [h] at hdue
      cases hdue

/-! ## 4. Alarms -/

theorem mem_ready_ring {time : Nat} {a : Agenda κ} {k : κ} :
    k ∈ (a.ring time).ready ↔ k ∈ a.ready ∨ ∃ t ≤ time, (t, k) ∈ a.alarms := by
  rw [ring, mem_ready_wakeAll]
  simp [List.mem_map, and_comm]

theorem ring_alarms (time : Nat) (a : Agenda κ) :
    (a.ring time).alarms = a.alarms.filter (time < ·.1) := by
  rw [ring, wakeAll_eq]

theorem ring_now (time : Nat) (a : Agenda κ) : (a.ring time).now = time := by
  rw [ring, wakeAll_eq]

omit [DecidableEq κ] in
theorem exists_of_nextAlarm? {time : Nat} {a : Agenda κ} (h : a.nextAlarm? = some time) :
    ∃ k, (time, k) ∈ a.alarms := by
  obtain ⟨e, he, rfl⟩ := List.mem_map.1 (List.min?_mem h)
  exact ⟨e.2, he⟩

/-- A ring takes more alarms away than it makes ready. -/
theorem length_ring_lt {time : Nat} {a : Agenda κ} (h : a.nextAlarm? = some time) :
    2 * (a.ring time).alarms.length + (a.ring time).ready.length <
      2 * a.alarms.length + a.ready.length := by
  obtain ⟨k, hk⟩ := exists_of_nextAlarm? h
  have hready := length_ready_wakeAll_le ((a.alarms.filter (·.1 ≤ time)).map (·.2))
    { a with now := time, alarms := a.alarms.filter (time < ·.1), yielded := patience }
  have hsplit : a.alarms.length =
      (a.alarms.filter (·.1 ≤ time)).length + (a.alarms.filter (time < ·.1)).length := by
    rw [List.length_eq_countP_add_countP (·.1 ≤ time), List.countP_eq_length_filter,
      List.countP_eq_length_filter]
    simp
  have hpos : 0 < (a.alarms.filter (·.1 ≤ time)).length :=
    List.length_pos_of_mem (List.mem_filter.2 ⟨hk, by simp⟩)
  rw [List.length_map] at hready
  change (a.ring time).ready.length ≤ a.ready.length + _ at hready
  rw [ring_alarms]
  omega

omit [DecidableEq κ] in
/-- No alarm comes before the next one. -/
theorem le_of_nextAlarm? {time t : Nat} {k : κ} {a : Agenda κ} (h : a.nextAlarm? = some time)
    (hmem : (t, k) ∈ a.alarms) : time ≤ t :=
  (List.min?_eq_some_iff.1 h).2 t (List.mem_map_of_mem hmem)

omit [DecidableEq κ] in
theorem lt_of_forall_nextAlarm? {time : Nat} {a : Agenda κ}
    (h : ∀ t, a.nextAlarm? = some t → time < t) : ∀ e ∈ a.alarms, time < e.1 := by
  intro e he
  cases hnext : a.nextAlarm? with
  | none =>
    have hnil : a.alarms = [] := List.map_eq_nil_iff.1 (List.min?_eq_none_iff.1 hnext)
    rw [hnil] at he
    cases he
  | some t => exact Nat.lt_of_lt_of_le (h t hnext) (le_of_nextAlarm? hnext he)

/-- Time passes: nobody was ready, no alarm was passed over, and whose alarm has come is ready. -/
structure Passes (a a' : Agenda κ) : Prop where
  idle : a.ready = []
  now_le : a.now ≤ a'.now
  alarms : ∀ e ∈ a.alarms, a'.now < e.1 ∧ e ∈ a'.alarms ∨ a'.now = e.1 ∧ e.2 ∈ a'.ready
  ahead : ∀ e ∈ a'.alarms, a'.now < e.1

theorem passes_ring {time : Nat} {a : Agenda κ} (hidle : a.ready = []) (hnow : a.now ≤ time)
    (halarms : ∀ e ∈ a.alarms, time ≤ e.1) : a.Passes (a.ring time) := by
  refine ⟨hidle, by rwa [ring_now], fun e he => ?_, fun e he => ?_⟩
  · have hle := halarms e he
    rw [ring_now, ring_alarms, List.mem_filter, decide_eq_true_eq, mem_ready_ring]
    rcases Nat.lt_or_eq_of_le hle with hlt | heq
    · exact .inl ⟨hlt, he, hlt⟩
    · exact .inr ⟨heq, .inr ⟨e.1, Nat.le_of_eq heq.symm, he⟩⟩
  · rw [ring_alarms] at he
    rw [ring_now]
    exact of_decide_eq_true (List.mem_filter.1 he).2

/-- Who has a turn when a time comes: its alarm is set, or it has rung by now. -/
inductive Awaits (a : Agenda κ) (k : κ) (time : Nat) : Prop where
  | running (hnow : a.now < time) (halarm : (time, k) ∈ a.alarms)
  | elapsed (hnow : a.now = time) (hready : k ∈ a.ready)

namespace Awaits

variable {a a' : Agenda κ} {k : κ} {time : Nat}

omit [DecidableEq κ] in
theorem now_le (h : a.Awaits k time) : a.now ≤ time := by
  cases h with
  | running hnow => exact Nat.le_of_lt hnow
  | elapsed hnow => exact Nat.le_of_eq hnow

omit [DecidableEq κ] in
theorem lt_of_idle (h : a.Awaits k time) (hidle : a.ready = []) : a.now < time := by
  cases h with
  | running hnow => exact hnow
  | elapsed _ hready => rw [hidle] at hready; cases hready

omit [DecidableEq κ] in
theorem of_subset (h : a.Awaits k time) (hnow : a'.now = a.now)
    (halarms : (time, k) ∈ a.alarms → (time, k) ∈ a'.alarms)
    (hready : k ∈ a.ready → k ∈ a'.ready) : a'.Awaits k time := by
  cases h with
  | running hlt halarm => exact .running (hnow ▸ hlt) (halarms halarm)
  | elapsed heq hmem => exact .elapsed (hnow.trans heq) (hready hmem)

omit [DecidableEq κ] in
theorem of_turn {other : κ} (h : a.Awaits k time) (hturn : TurnOf other a a') (hne : k ≠ other) :
    a'.Awaits k time :=
  h.of_subset hturn.now (fun halarm => hturn.alarms ▸ halarm) fun hmem => hturn.others k hmem hne

omit [DecidableEq κ] in
/-- A turn before the time comes makes no difference. -/
theorem of_early_turn {other : κ} (h : a.Awaits k time) (hturn : TurnOf other a a')
    (hlt : a.now < time) : a'.Awaits k time := by
  cases h with
  | running _ halarm => exact .running (hturn.now ▸ hlt) (hturn.alarms ▸ halarm)
  | elapsed heq => omega

omit [DecidableEq κ] in
theorem of_pass (h : a.Awaits k time) (hpass : a.Passes a') : a'.Awaits k time := by
  cases h with
  | running hlt halarm =>
    rcases hpass.alarms _ halarm with ⟨hlt', halarm'⟩ | ⟨heq, hready⟩
    · exact .running hlt' halarm'
    · exact .elapsed heq hready
  | elapsed _ hready => rw [hpass.idle] at hready; cases hready

end Awaits

end Agenda

/-! ## 5. Worlds that come to an end -/

namespace Timed

variable {ω κ : Type} [Timed ω κ] [DecidableEq κ] {goal : ω → Bool} {mayWait : Nat → Bool}

theorem Reaches.trans {u v w : ω} (h : Reaches goal mayWait u v) (h' : Reaches goal mayWait v w) :
    Reaches goal mayWait u w := by
  induction h' with
  | refl => exact h
  | step _ hnext ih => exact ih.step hnext

theorem next?_cases {w next : ω} (h : next? goal mayWait w = some next) :
    goal w = false ∧
      ((∃ k a, Agenda.TurnOf k (agenda w) a ∧ next = turn k (withAgenda a w)) ∨
        ∃ time, (agenda w).ready = [] ∧ (agenda w).nextAlarm? = some time ∧ mayWait time = true ∧
          next = plan (·.ring time) w) := by
  rw [next?] at h
  split at h
  · cases h
  · next hgoal =>
    refine ⟨Bool.eq_false_iff.2 hgoal, ?_⟩
    split at h
    · next hstep =>
      obtain rfl := Option.some.inj h
      obtain ⟨⟨k, a⟩, hwhose, rfl⟩ := Option.map_eq_some_iff.1 hstep
      exact .inl ⟨k, a, Agenda.turnOf_of_next? hwhose, rfl⟩
    · next hstep =>
      obtain ⟨time, htime, rfl⟩ := Option.map_eq_some_iff.1 h
      obtain ⟨halarm, hmay⟩ := Option.filter_eq_some_iff.1 htime
      exact .inr ⟨time, Agenda.next?_eq_none_iff.1 (Option.map_eq_none_iff.1 hstep), halarm, hmay,
        rfl⟩

/-- Nothing comes next at a goal, or when nobody is ready and no alarm may be waited for. -/
theorem ended_of_next? {w : ω} (h : next? goal mayWait w = none) :
    goal w = true ∨ (agenda w).ready = [] ∧
      ∀ time, (agenda w).nextAlarm? = some time → mayWait time = false := by
  rw [next?] at h
  split at h
  · next hgoal => exact .inl hgoal
  · split at h
    · cases h
    · next hstep =>
      refine .inr ⟨Agenda.next?_eq_none_iff.1 (Option.map_eq_none_iff.1 hstep), fun time htime => ?_⟩
      have hfilter := Option.map_eq_none_iff.1 h
      rw [htime] at hfilter
      simpa using hfilter

/-- What keeps going towards an end, with an effort that gets less and less, comes to one. -/
theorem exists_endsIn {motive : Nat → ω → Prop} {effort : Nat} {w : ω} (h : motive effort w)
    (step : ∀ effort v next, motive effort v → next? goal mayWait v = some next →
      ∃ less < effort, motive less next) :
    ∃ v left, drive goal mayWait w = some v ∧ motive left v ∧ next? goal mayWait v = none := by
  suffices hreaches : ∃ v left, Reaches goal mayWait w v ∧ motive left v ∧
      next? goal mayWait v = none by
    obtain ⟨v, left, hreaches, hv, hended⟩ := hreaches
    exact ⟨v, left, drive_eq_some_iff.2 ⟨hreaches, hended⟩, hv, hended⟩
  induction effort using Nat.strongRecOn generalizing w with
  | ind effort ih =>
    cases hnext : next? goal mayWait w with
    | none => exact ⟨w, effort, .refl, h, hnext⟩
    | some next =>
      obtain ⟨less, hless, hmotive⟩ := step effort w next h hnext
      obtain ⟨v, left, hreaches, hv, hended⟩ := ih less hless hmotive
      exact ⟨v, left, (Reaches.refl.step hnext).trans hreaches, hv, hended⟩

theorem settle_of_endsIn {w v : ω} (h : EndsIn (fun _ => false) (fun _ => false) w v) :
    settle w = v := by
  rw [settle, drive_eq_some_iff.2 h]
  rfl

theorem drive_of_next? {w next : ω} (h : next? goal mayWait w = some next) :
    drive goal mayWait w = drive goal mayWait next := by
  have hiff (v : ω) : drive goal mayWait w = some v ↔ drive goal mayWait next = some v := by
    rw [drive_eq_some_iff, drive_eq_some_iff]
    constructor
    · rintro ⟨hreaches, hended⟩
      refine ⟨?_, hended⟩
      -- The first step of the way is the one that is known.
      have hway : (w = v ∨ Reaches goal mayWait next v) := by
        clear hended
        induction hreaches with
        | refl => exact .inl rfl
        | step hreaches hnext ih =>
          rcases ih with rfl | ih
          · rw [h] at hnext
            cases hnext
            exact .inr .refl
          · exact .inr (ih.step hnext)
      rcases hway with rfl | hway
      · rw [h] at hended
        cases hended
      · exact hway
    · rintro ⟨hreaches, hended⟩
      exact ⟨(Reaches.refl.step h).trans hreaches, hended⟩
  cases hdrive : drive goal mayWait next with
  | some v => exact (hiff v).2 hdrive
  | none =>
    refine Option.eq_none_iff_forall_not_mem.2 fun v hv => ?_
    rw [(hiff v).1 hv] at hdrive
    cases hdrive

/-! ## 6. Relations that agendas respect -/

/-- A relation between worlds that holds of every turn, whoever takes it, and of every new plan, and
of whatever is made of these. -/
structure Follows (R : ω → ω → Prop) : Prop where
  refl : ∀ w, R w w
  trans : ∀ {u v w}, R u v → R v w → R u w
  plan : ∀ f w, R w (plan f w)
  /-- A turn is taken off the agenda. -/
  turn : ∀ k a w, R w (turn k (withAgenda a w))

namespace Follows

variable {R : ω → ω → Prop}

theorem next? (h : Follows R) {w next : ω} (hnext : Timed.next? goal mayWait w = some next) :
    R w next := by
  obtain ⟨-, ⟨k, a, -, rfl⟩ | ⟨time, -, -, -, rfl⟩⟩ := next?_cases hnext
  · exact h.turn k a w
  · exact h.plan _ w

theorem drive (h : Follows R) {w v : ω} (hdrive : Timed.drive goal mayWait w = some v) : R w v := by
  have hreaches := (drive_eq_some_iff.1 hdrive).reaches
  clear hdrive
  induction hreaches with
  | refl => exact h.refl w
  | step _ hnext ih => exact h.trans ih (h.next? hnext)

theorem getD_drive (h : Follows R) (goal : ω → Bool) (mayWait : Nat → Bool) (w : ω) :
    R w ((Timed.drive goal mayWait w).getD w) := by
  cases hdrive : Timed.drive goal mayWait w with
  | none => exact h.refl w
  | some v => exact h.drive hdrive

theorem settle (h : Follows R) (w : ω) : R w (Timed.settle w) := h.getD_drive _ _ w

theorem pass (h : Follows R) (ms : Nat) (w : ω) : R w (Timed.pass ms w) := by
  rw [Timed.pass]
  exact h.trans (h.getD_drive _ _ w) (h.plan _ _)

theorem passUntil (h : Follows R) (time : Nat) (w : ω) : R w (Timed.passUntil time w) := by
  rw [Timed.passUntil]
  split
  · exact h.refl w
  · exact h.trans (h.getD_drive _ _ w) (h.plan _ _)

/-- The plan that puts an activity in the foreground is the one on which it takes its turn. -/
theorem await (h : Follows R) (k : κ) (goal : ω → Bool) (w : ω) : R w (Timed.await k goal w) := by
  rw [Timed.await]
  exact h.trans (h.turn k _ w) (h.trans (h.getD_drive _ _ _) (h.plan _ _))

end Follows

end Timed

end Uplink
