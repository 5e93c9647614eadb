import Uplink.Proofs.Payload.RoundTrip

/-!
# The order of fields

It does not matter in which order the fields of a payload arrive, nor which fields that are not
known here stand among them. Fields of different numbers are taken up into different parts of the
payload, and of the metrics only the names count in the end.
-/

namespace Uplink

open Number Time Wire

namespace Payload.Binary

/-! ## 1. What a field does to each part of a payload -/

def knownNumbers : List Nat := [1, 2, 5000, 5001]

/-- What is done to each part of a payload. Metrics are only ever added. -/
structure Change where
  timestamp : Option Int64 → Option Int64 := id
  position : Option RawPosition → Option (Option RawPosition) := some
  metrics : Option (List RawMetric) := some []
  body : Option (List UInt8) → Option (List UInt8) := id

def Change.apply (c : Change) (p : RawPayload) : Option RawPayload := do
  let position ← c.position p.position
  let metrics ← c.metrics
  some {
    timestamp := c.timestamp p.timestamp, position
    metrics := p.metrics ++ metrics, body := c.body p.body }

def change : Field → Change
  | .varint 1 n => { timestamp := fun _ => some (toLong n) }
  | .delimited 2 bs => {
      position := fun position => do
        let position ← (← Field.readAll 1 bs).foldlM RawPosition.add (position.getD {})
        some (some position) }
  | .delimited 5000 bs => {
      metrics := do
        let metric ← (← Field.readAll 1 bs).foldlM RawMetric.add {}
        some [metric] }
  | .delimited 5001 bs => { body := fun _ => some bs }
  | f => if f.number ∈ knownNumbers then { metrics := none } else {}

theorem add_eq_apply (p : RawPayload) (f : Field) : p.add f = (change f).apply p := by
  have hknown : [1, 2, 5000, 5001] = knownNumbers := rfl
  unfold RawPayload.add change
  split
  · simp [Change.apply]
  · simp [Change.apply, Option.bind_assoc]
  · simp [Change.apply, Option.bind_assoc]
  · simp [Change.apply]
  · by_cases hn : f.number ∈ knownNumbers <;> simp [Change.apply, hknown, hn]

theorem change_unknown {f : Field} (h : f.number ∉ knownNumbers) : change f = {} := by
  unfold change
  split
  case h_5 => rw [if_neg h]
  all_goals simp [knownNumbers, Field.number] at h

theorem change_timestamp {f : Field} (h : f.number ≠ 1) : (change f).timestamp = id := by
  unfold change
  split
  case h_1 => exact absurd rfl h
  case h_5 => split <;> rfl
  all_goals rfl

theorem change_position {f : Field} (h : f.number ≠ 2) : (change f).position = some := by
  unfold change
  split
  case h_2 => exact absurd rfl h
  case h_5 => split <;> rfl
  all_goals rfl

theorem change_body {f : Field} (h : f.number ≠ 5001) : (change f).body = id := by
  unfold change
  split
  case h_4 => exact absurd rfl h
  case h_5 => split <;> rfl
  all_goals rfl

theorem add_of_unknown {f : Field} (h : f.number ∉ knownNumbers) (p : RawPayload) :
    p.add f = some p := by
  rw [add_eq_apply, change_unknown h]
  simp [Change.apply]

/-! ## 2. The order of two fields -/

/-- What was read is the same, but for the order of the metrics. -/
structure Alike (p q : RawPayload) : Prop where
  timestamp : p.timestamp = q.timestamp
  position : p.position = q.position
  metrics : p.metrics.Perm q.metrics
  body : p.body = q.body

theorem Alike.refl (p : RawPayload) : Alike p p := ⟨rfl, rfl, .refl _, rfl⟩

theorem Alike.trans {p q r : RawPayload} (h : Alike p q) (h' : Alike q r) : Alike p r :=
  ⟨h.timestamp.trans h'.timestamp, h.position.trans h'.position, h.metrics.trans h'.metrics,
    h.body.trans h'.body⟩

theorem Change.apply_eq_some_iff {c : Change} {p p' : RawPayload} :
    c.apply p = some p' ↔ ∃ position metrics, c.position p.position = some position ∧
      c.metrics = some metrics ∧
      p' = ⟨c.timestamp p.timestamp, position, p.metrics ++ metrics, c.body p.body⟩ := by
  simp only [Change.apply, Option.bind_eq_bind, Option.bind_eq_some_iff, Option.some.injEq]
  constructor
  · rintro ⟨position, hposition, metrics, hmetrics, rfl⟩
    exact ⟨position, metrics, hposition, hmetrics, rfl⟩
  · rintro ⟨position, metrics, hposition, hmetrics, rfl⟩
    exact ⟨position, hposition, metrics, hmetrics, rfl⟩

theorem Alike.add {p q p' : RawPayload} {f : Field} (h : Alike p q) (hp : p.add f = some p') :
    ∃ q', q.add f = some q' ∧ Alike p' q' := by
  rw [add_eq_apply] at hp
  obtain ⟨position, metrics, hposition, hmetrics, rfl⟩ := Change.apply_eq_some_iff.1 hp
  rw [h.position] at hposition
  rw [add_eq_apply]
  refine ⟨_, Change.apply_eq_some_iff.2 ⟨position, metrics, hposition, hmetrics, rfl⟩, ?_⟩
  exact ⟨by rw [h.timestamp], rfl, h.metrics.append_right metrics, by rw [h.body]⟩

/-- Fields of different numbers may change places, and so may metrics. -/
theorem add_add_swap {f g : Field} (h : f.number = g.number → f.number = 5000)
    {p q r : RawPayload} (hf : p.add f = some q) (hg : q.add g = some r) :
    ∃ q' r', p.add g = some q' ∧ q'.add f = some r' ∧ Alike r r' := by
  -- Each part but the metrics is left alone by one of the two fields.
  have hone (n : Nat) (hn : n ≠ 5000) : f.number ≠ n ∨ g.number ≠ n := by omega
  rw [add_eq_apply] at hf hg
  obtain ⟨position, metrics, hposition, hmetrics, rfl⟩ := Change.apply_eq_some_iff.1 hf
  obtain ⟨position', metrics', hposition', hmetrics', rfl⟩ := Change.apply_eq_some_iff.1 hg
  obtain ⟨between, hbetween, hafter⟩ : ∃ between, (change g).position p.position = some between ∧
      (change f).position between = some position' := by
    rcases hone 2 (by decide) with hn | hn
    · rw [change_position hn] at hposition ⊢
      cases hposition
      exact ⟨position', hposition', rfl⟩
    · rw [change_position hn] at hposition' ⊢
      cases hposition'
      exact ⟨p.position, rfl, hposition⟩
  simp only [add_eq_apply]
  refine ⟨_, _, Change.apply_eq_some_iff.2 ⟨between, metrics', hbetween, hmetrics', rfl⟩,
    Change.apply_eq_some_iff.2 ⟨position', metrics, hafter, hmetrics, rfl⟩, ?_⟩
  constructor
  · rcases hone 1 (by decide) with hn | hn
    · rw [change_timestamp hn]
      rfl
    · rw [change_timestamp hn]
      rfl
  · rfl
  · simp only [List.append_assoc]
    exact List.perm_append_comm.append_left _
  · rcases hone 5001 (by decide) with hn | hn
    · rw [change_body hn]
      rfl
    · rw [change_body hn]
      rfl

/-! ## 3. The order of all fields -/

theorem Alike.foldlM {fs : List Field} {p q p' : RawPayload} (h : Alike p q)
    (hp : fs.foldlM RawPayload.add p = some p') :
    ∃ q', fs.foldlM RawPayload.add q = some q' ∧ Alike p' q' := by
  induction fs generalizing p q with
  | nil => cases hp; exact ⟨q, rfl, h⟩
  | cons f fs ih =>
    obtain ⟨mid, hmid, hp⟩ := foldlM_cons_eq_some_iff.1 hp
    obtain ⟨mid', hmid', halike⟩ := h.add hmid
    obtain ⟨q', hq', hend⟩ := ih halike hp
    exact ⟨q', foldlM_cons_eq_some_iff.2 ⟨mid', hmid', hq'⟩, hend⟩

/-- Only metrics come more than once. -/
def OnlyMetricsTwice (fs : List Field) : Prop :=
  fs.Pairwise fun f g => f.number = g.number → f.number = 5000

theorem foldlM_add_perm {fs gs : List Field} (h : fs.Perm gs) (hfs : OnlyMetricsTwice fs)
    {p p' : RawPayload} (hp : fs.foldlM RawPayload.add p = some p') :
    ∃ q', gs.foldlM RawPayload.add p = some q' ∧ Alike p' q' := by
  induction h generalizing p p' with
  | nil => exact ⟨p', hp, .refl p'⟩
  | cons f h ih =>
    obtain ⟨mid, hmid, hp⟩ := foldlM_cons_eq_some_iff.1 hp
    obtain ⟨q', hq', halike⟩ := ih (List.pairwise_cons.1 hfs).2 hp
    exact ⟨q', foldlM_cons_eq_some_iff.2 ⟨mid, hmid, hq'⟩, halike⟩
  | swap f g fs =>
    obtain ⟨mid, hmid, hp⟩ := foldlM_cons_eq_some_iff.1 hp
    obtain ⟨mid', hmid', hp⟩ := foldlM_cons_eq_some_iff.1 hp
    have hnumbers := (List.pairwise_cons.1 hfs).1 f List.mem_cons_self
    obtain ⟨other, other', hother, hother', halike⟩ := add_add_swap hnumbers hmid hmid'
    obtain ⟨q', hq', hend⟩ := halike.foldlM hp
    have hafter := foldlM_cons_eq_some_iff.2 ⟨other', hother', hq'⟩
    exact ⟨q', foldlM_cons_eq_some_iff.2 ⟨other, hother, hafter⟩, hend⟩
  | trans h h' ih ih' =>
    obtain ⟨mid, hmid, halike⟩ := ih hfs hp
    -- That only metrics come twice is as true of the fields in another order.
    have hmids : OnlyMetricsTwice _ :=
      h.pairwise hfs fun hne heq => heq.trans (hne heq.symm)
    obtain ⟨q', hq', halike'⟩ := ih' hmids hmid
    exact ⟨q', hq', halike.trans halike'⟩

theorem onlyMetricsTwice_optional {α : Type} (field : α → Field) (value : Option α) :
    OnlyMetricsTwice (optional field value) := by
  cases value <;> simp [OnlyMetricsTwice, optional]

theorem OnlyMetricsTwice.append {fs gs : List Field} (hfs : OnlyMetricsTwice fs)
    (hgs : OnlyMetricsTwice gs) (h : ∀ f ∈ fs, ∀ g ∈ gs, f.number ≠ g.number) :
    OnlyMetricsTwice (fs ++ gs) :=
  List.pairwise_append.2 ⟨hfs, hgs, fun f hf g hg heq => absurd heq (h f hf g hg)⟩

theorem onlyMetricsTwice_of_forall {fs : List Field} (h : ∀ f ∈ fs, f.number = 5000) :
    OnlyMetricsTwice fs :=
  List.pairwise_iff_forall_sublist.2 fun hsub _ => h _ (hsub.subset List.mem_cons_self)

theorem onlyMetricsTwice_fields (p : Payload) : OnlyMetricsTwice (fields p) := by
  refine (((onlyMetricsTwice_optional _ _).append (onlyMetricsTwice_optional _ _) ?_).append
    (onlyMetricsTwice_of_forall ?_) ?_).append (onlyMetricsTwice_optional _ _) ?_
  case refine_2 =>
    intro f hf
    obtain ⟨e, _, rfl⟩ := List.mem_map.1 hf
    rfl
  all_goals
    intro f hf g hg
    simp only [List.mem_append, List.mem_map, mem_optional] at hf hg
  · obtain ⟨i, _, rfl⟩ := hf
    obtain ⟨pos, _, rfl⟩ := hg
    simp [Field.number]
  · obtain ⟨e, _, rfl⟩ := hg
    rcases hf with ⟨i, _, rfl⟩ | ⟨pos, _, rfl⟩ <;> simp [Field.number]
  · obtain ⟨body, _, rfl⟩ := hg
    rcases hf with (⟨i, _, rfl⟩ | ⟨pos, _, rfl⟩) | ⟨e, _, rfl⟩ <;> simp [Field.number]

/-! ## 4. What is read in another order -/

theorem mapM_perm {α β : Type} {f : α → Except Malformation β} {as as' : List α} {bs : List β}
    (h : as.Perm as') (hbs : as.mapM f = .ok bs) : ∃ bs', as'.mapM f = .ok bs' ∧ bs.Perm bs' := by
  induction h generalizing bs with
  | nil => exact ⟨bs, hbs, .refl bs⟩
  | cons a h ih =>
    obtain ⟨b, more, hb, hmore, rfl⟩ := mapM_cons_eq_ok_iff.1 hbs
    obtain ⟨more', hmore', hperm⟩ := ih hmore
    exact ⟨b :: more', mapM_cons_eq_ok_iff.2 ⟨b, more', hb, hmore', rfl⟩, hperm.cons b⟩
  | swap a a' as =>
    obtain ⟨b, more, hb, hmore, rfl⟩ := mapM_cons_eq_ok_iff.1 hbs
    obtain ⟨b', rest, hb', hrest, rfl⟩ := mapM_cons_eq_ok_iff.1 hmore
    have hother := mapM_cons_eq_ok_iff.2 ⟨b, rest, hb, hrest, rfl⟩
    exact ⟨b' :: b :: rest, mapM_cons_eq_ok_iff.2 ⟨b', b :: rest, hb', hother, rfl⟩, .swap ..⟩
  | trans h h' ih ih' =>
    obtain ⟨mid, hmid, hperm⟩ := ih hbs
    obtain ⟨bs', hbs', hperm'⟩ := ih' hmid
    exact ⟨bs', hbs', hperm.trans hperm'⟩

/-- The order of the metrics is lost in the end, if their names are those of a map. -/
theorem finish_eq_of_alike {p q : RawPayload} {m : SortedMap Metric} (h : Alike p q)
    (hm : p.metrics.mapM RawMetric.finish = .ok m.entries) : q.finish = p.finish := by
  obtain ⟨entries, hentries, hperm⟩ := mapM_perm h.metrics hm
  have hsame : SortedMap.ofList entries = SortedMap.ofList m.entries := by
    rw [SortedMap.ofList_entries, SortedMap.ofList_of_perm hperm.symm]
  simp only [RawPayload.finish, h.timestamp, h.position, h.body, hm, hentries]
  show (_ >>= fun timestamp => _ >>= fun position => pure _) = _
  rw [hsame]
  rfl

/-- Bytes are these fields as they are written here, one after the other, with well-formed fields of
other numbers anywhere between them. -/
inductive Strewn : List Field → List UInt8 → Prop where
  | nil : Strewn [] []
  | known (f : Field) {fields : List Field} {bs : List UInt8} (h : Strewn fields bs) :
      Strewn (f :: fields) (f.write ++ bs)
  | unknown {f : Field} {fields : List Field} {unknown bs : List UInt8}
      (hf : f.number ∉ knownNumbers) (hspells : Field.Spells maxDepth f unknown)
      (h : Strewn fields bs) : Strewn fields (unknown ++ bs)

/-- What is strewn among the fields is read with them, and passed over. -/
theorem isMessage_of_strewn {fs : List Field} {bs : List UInt8} (h : Strewn fs bs)
    (hfs : ∀ f ∈ fs, Field.Sound maxDepth f) :
    ∃ found, Field.IsMessage maxDepth bs found ∧
      ∀ p, found.foldlM RawPayload.add p = fs.foldlM RawPayload.add p := by
  induction h with
  | nil => exact ⟨[], .nil, fun _ => rfl⟩
  | known f h ih =>
    obtain ⟨hf, hfs⟩ := List.forall_mem_cons.1 hfs
    obtain ⟨found, hfound, hsame⟩ := ih hfs
    exact ⟨f :: found, hfound.cons (Field.spells_write hf), fun p => by
      simp only [List.foldlM_cons, hsame]⟩
  | @unknown f fs unknown bs hf hspells h ih =>
    obtain ⟨found, hfound, hsame⟩ := ih hfs
    refine ⟨f :: found, hfound.cons hspells, fun p => ?_⟩
    rw [List.foldlM_cons, add_of_unknown hf, Option.bind_eq_bind, Option.bind_some, hsame]

/-- **Neither the order of the fields matters nor what else stands between them.** -/
theorem decode_of_strewn (p : Payload) (hsize : (encode p).length < UInt64.size) {fs : List Field}
    (hfs : fs.Perm (fields p)) {bs : List UInt8} (h : Strewn fs bs) :
    decode bs = decode (encode p) := by
  have hfits := fits_of_length hsize
  have hsound : ∀ f ∈ fs, Field.Sound maxDepth f := fun f hf =>
    sound_fields 99 hfits f (hfs.mem_iff.1 hf)
  obtain ⟨found, hfound, hsame⟩ := isMessage_of_strewn h hsound
  have hread : Field.readAll 0 bs = some found := Field.readAll_eq_some_iff.2 hfound
  obtain ⟨ms, hfields, hms⟩ := read_fields hfits
  obtain ⟨q, hq, halike⟩ := foldlM_add_perm hfs.symm (onlyMetricsTwice_fields p) hfields
  have hencode : RawPayload.read (encode p) = (fields p).foldlM RawPayload.add {} := by
    rw [RawPayload.read, encode, Field.readAll_writeAll 0 (fields p) (sound_fields 99 hfits)]
    rfl
  have hdecode : RawPayload.read bs = some q := by
    rw [RawPayload.read, hread, Option.bind_eq_bind, Option.bind_some, hsame, hq]
  rw [decode, decode, hencode, hfields, hdecode]
  exact congrArg (Except.mapError CodecError.malformed) (finish_eq_of_alike halike hms)

/-- A payload of two metrics and a body. -/
def switches : Payload where
  metrics := SortedMap.ofList [("a", .bool true), ("b", .bool false)]
  body := some [0x2A]

/-- The body, a group that is not known, the metrics in descending order, and a field that is not
known with a needless second byte. -/
def switchesMixed : List UInt8 :=
  [0xCA, 0xB8, 0x02, 0x01, 0x2A] ++ ([0x1B, 0x20, 0x01, 0x1C] ++
    ([0xC2, 0xB8, 0x02, 0x07, 0x0A, 0x01, 0x62, 0x10, 0x04, 0x38, 0x00] ++
      ([0xC2, 0xB8, 0x02, 0x07, 0x0A, 0x01, 0x61, 0x10, 0x04, 0x38, 0x01] ++
        ([0x48, 0x81, 0x00] ++ []))))

theorem fields_switches : fields switches =
    [.delimited 5000 [0x0A, 0x01, 0x61, 0x10, 0x04, 0x38, 0x01],
      .delimited 5000 [0x0A, 0x01, 0x62, 0x10, 0x04, 0x38, 0x00], .delimited 5001 [0x2A]] := by
  have ha : metricFields "a" (.bool true) = [.delimited 1 [0x61], .varint 2 4, .varint 7 1] := rfl
  have hb : metricFields "b" (.bool false) = [.delimited 1 [0x62], .varint 2 4, .varint 7 0] := rfl
  have hentries : switches.metrics.entries = [("a", .bool true), ("b", .bool false)] := rfl
  rw [fields, hentries]
  simp only [List.map, ha, hb, Field.writeAll, Field.write]
  rfl

theorem decode_of_strewn_switches :
    (encode switches).length < UInt64.size ∧
      (fields switches).reverse.Perm (fields switches) ∧
      Strewn (fields switches).reverse switchesMixed ∧
      decode switchesMixed = decode (encode switches) ∧
      decode switchesMixed = .ok switches := by
  have hsize : (encode switches).length < UInt64.size := by
    rw [encode, fields_switches]
    simp only [Field.writeAll, List.map, Field.write]
    decide
  have hgroup : Field.Spells maxDepth (.group 3 [.varint 4 1])
      (Field.write (.group 3 [.varint 4 1])) :=
    Field.spells_write (.group (by decide) fun f hf => by
      cases List.mem_singleton.1 hf
      exact .varint (by decide) (by decide))
  have hvarint : Field.Spells maxDepth (.varint 9 1) ([0x48] ++ [0x81, 0x00]) :=
    .varint ⟨⟨.last (by decide), by decide, by decide⟩, by decide, by decide⟩
      ⟨.more (by decide) (.last (by decide)), by decide, by decide⟩
  have hstrewn : Strewn (fields switches).reverse switchesMixed := by
    have h : Strewn _ _ := .known (.delimited 5001 [0x2A]) (.unknown (by decide) hgroup
      (.known (.delimited 5000 [0x0A, 0x01, 0x62, 0x10, 0x04, 0x38, 0x00])
        (.known (.delimited 5000 [0x0A, 0x01, 0x61, 0x10, 0x04, 0x38, 0x01])
          (.unknown (by decide) hvarint .nil))))
    simp only [Field.write_group, Field.writeAll, List.map, Field.write] at h
    rw [fields_switches]
    exact h
  have hperm := List.reverse_perm (fields switches)
  have hsame := decode_of_strewn switches hsize hperm hstrewn
  exact ⟨hsize, hperm, hstrewn, hsame, rfl⟩

end Payload.Binary

end Uplink
