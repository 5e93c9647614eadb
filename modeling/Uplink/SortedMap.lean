/-!
# Maps sorted by name

Entries with text names, kept in ascending order of the names with no name twice. Names are
compared character by character by code point, which is also the order of their UTF-8 bytes. The
order is part of the type, so two maps with the same entries are equal.
-/

namespace Uplink

/-- Insert an entry into a sorted list in place of an entry of the same name. -/
def insertEntry {α : Type} (name : String) (value : α) : List (String × α) → List (String × α)
  | [] => [(name, value)]
  | (n, v) :: rest =>
    if name < n then (name, value) :: (n, v) :: rest
    else if name = n then (name, value) :: rest
    else (n, v) :: insertEntry name value rest

/-- Each name is before all later ones. -/
def Ascending {α : Type} (entries : List (String × α)) : Prop :=
  entries.Pairwise fun a b => a.1 < b.1

theorem mem_insertEntry {α : Type} {name : String} {value : α} {entries : List (String × α)}
    {e : String × α} (h : e ∈ insertEntry name value entries) : e = (name, value) ∨ e ∈ entries := by
  induction entries with
  | nil => simp [insertEntry] at h; exact .inl h
  | cons x rest ih =>
    obtain ⟨n, v⟩ := x
    rw [insertEntry] at h
    split at h
    · simpa using h
    · split at h
      · rcases List.mem_cons.1 h with h | h
        · exact .inl h
        · exact .inr (List.mem_cons_of_mem _ h)
      · rcases List.mem_cons.1 h with h | h
        · exact .inr (h ▸ List.mem_cons_self)
        · rcases ih h with h | h
          · exact .inl h
          · exact .inr (List.mem_cons_of_mem _ h)

theorem ascending_insertEntry {α : Type} (name : String) (value : α)
    {entries : List (String × α)} (h : Ascending entries) :
    Ascending (insertEntry name value entries) := by
  induction entries with
  | nil => simp [insertEntry, Ascending]
  | cons x rest ih =>
    obtain ⟨n, v⟩ := x
    obtain ⟨hx, hrest⟩ := List.pairwise_cons.1 h
    rw [insertEntry]
    split
    · next hlt =>
      refine List.pairwise_cons.2 ⟨fun e he => ?_, h⟩
      rcases List.mem_cons.1 he with rfl | he
      · exact hlt
      · exact String.lt_trans hlt (hx e he)
    · split
      · next heq =>
        subst heq
        exact List.pairwise_cons.2 ⟨hx, hrest⟩
      · next hlt hne =>
        refine List.pairwise_cons.2 ⟨fun e he => ?_, ih hrest⟩
        rcases mem_insertEntry he with rfl | he
        · exact Std.lt_of_le_of_ne (String.not_lt.1 hlt) fun e => hne e.symm
        · exact hx e he

structure SortedMap (α : Type) where
  entries : List (String × α)
  ascending : Ascending entries

namespace SortedMap

variable {α : Type}

instance [DecidableEq α] : DecidableEq (SortedMap α) := fun a b =>
  match decEq a.entries b.entries with
  | .isTrue h => .isTrue (by cases a; cases b; simpa using h)
  | .isFalse h => .isFalse fun e => h (e ▸ rfl)

def empty : SortedMap α := ⟨[], .nil⟩

instance : EmptyCollection (SortedMap α) := ⟨empty⟩

instance : Inhabited (SortedMap α) := ⟨empty⟩

def insert (m : SortedMap α) (name : String) (value : α) : SortedMap α :=
  ⟨insertEntry name value m.entries, ascending_insertEntry name value m.ascending⟩

def get? (m : SortedMap α) (name : String) : Option α :=
  (m.entries.find? fun e => e.1 == name).map (·.2)

def erase (m : SortedMap α) (name : String) : SortedMap α :=
  ⟨m.entries.filter fun e => e.1 != name, m.ascending.filter _⟩

def contains (m : SortedMap α) (name : String) : Bool :=
  m.entries.any fun e => e.1 == name

def isEmpty (m : SortedMap α) : Bool := m.entries.isEmpty

def names (m : SortedMap α) : List String := m.entries.map (·.1)

/-- Entries from first to last, later ones in place of earlier ones of the same name. -/
def ofList (entries : List (String × α)) : SortedMap α :=
  entries.foldl (fun m e => m.insert e.1 e.2) empty

@[ext] theorem ext {a b : SortedMap α} (h : a.entries = b.entries) : a = b := by
  cases a; cases b; simpa using h

@[simp] theorem entries_empty : (empty : SortedMap α).entries = [] := rfl

/-! ## Looking entries up -/

theorem names_insertEntry {name : String} {value : α} {entries : List (String × α)} {n : String} :
    n ∈ (insertEntry name value entries).map (·.1) ↔ n = name ∨ n ∈ entries.map (·.1) := by
  induction entries with
  | nil => simp [insertEntry]
  | cons x rest ih =>
    obtain ⟨m, v⟩ := x
    rw [insertEntry]
    split
    · simp
    · split
      · next heq => simp [heq]
      · rw [List.map_cons, List.mem_cons, ih, List.map_cons, List.mem_cons]
        exact or_left_comm

@[simp] theorem mem_names_insert {m : SortedMap α} {name : String} {value : α} {n : String} :
    n ∈ (m.insert name value).names ↔ n = name ∨ n ∈ m.names :=
  names_insertEntry

theorem contains_iff_mem_names {m : SortedMap α} {name : String} :
    m.contains name = true ↔ name ∈ m.names := by
  simp [contains, names]

/-- No name comes twice, and each one comes before those that are greater. -/
theorem pairwise_names (m : SortedMap α) : m.names.Pairwise (· < ·) :=
  List.pairwise_map.2 m.ascending

theorem find?_insertEntry (name : String) (value : α) (entries : List (String × α)) (n : String) :
    (insertEntry name value entries).find? (fun e => e.1 == n) =
      if name = n then some (name, value) else entries.find? fun e => e.1 == n := by
  induction entries with
  | nil =>
    by_cases hn : name = n <;> simp [insertEntry, hn]
  | cons x rest ih =>
    obtain ⟨m, v⟩ := x
    rw [insertEntry]
    by_cases hn : name = n
    · -- What goes before has another name.
      rw [if_pos hn]
      split
      · simp [hn]
      · split
        · simp [hn]
        · next hne =>
          rw [List.find?_cons_of_neg (by simpa [hn] using fun heq => hne (hn.trans heq.symm)), ih,
            if_pos hn]
    · rw [if_neg hn] at ih ⊢
      split
      · simp [hn]
      · split
        · next heq => simp [← heq, hn]
        · rw [List.find?_cons, List.find?_cons, ih]

theorem get?_insert (m : SortedMap α) (name : String) (value : α) (n : String) :
    (m.insert name value).get? n = if name = n then some value else m.get? n := by
  rw [get?, insert, find?_insertEntry]
  split <;> rfl

/-- An entry whose name is after all others goes to the end. -/
theorem insertEntry_of_forall_lt {name : String} (value : α) {entries : List (String × α)}
    (h : ∀ e ∈ entries, e.1 < name) :
    insertEntry name value entries = entries ++ [(name, value)] := by
  induction entries with
  | nil => rfl
  | cons x rest ih =>
    obtain ⟨n, v⟩ := x
    have hn : n < name := h (n, v) List.mem_cons_self
    have hrest := ih fun e he => h e (List.mem_cons_of_mem _ he)
    rw [insertEntry, if_neg (String.lt_asymm hn),
      if_neg fun e => String.lt_irrefl _ (e ▸ hn), hrest, List.cons_append]

@[simp] theorem ofList_entries (m : SortedMap α) : ofList m.entries = m := by
  suffices h : ∀ (later : List (String × α)) (done : SortedMap α),
      Ascending (done.entries ++ later) →
      (later.foldl (fun m e => m.insert e.1 e.2) done).entries = done.entries ++ later by
    exact SortedMap.ext (h m.entries empty m.ascending)
  intro later
  induction later with
  | nil => intro done _; simp
  | cons e later ih =>
    intro done hsorted
    have hbefore : ∀ x ∈ done.entries, x.1 < e.1 := fun x hx =>
      (List.pairwise_append.1 hsorted).2.2 x hx e List.mem_cons_self
    have hinsert : (done.insert e.1 e.2).entries = done.entries ++ [e] :=
      insertEntry_of_forall_lt e.2 hbefore
    rw [List.foldl_cons, ih _ (by rw [hinsert, List.append_assoc]; exact hsorted), hinsert,
      List.append_assoc, List.singleton_append]

/-! ## Maps of many entries -/

theorem mem_of_mem_foldl_insert {entries : List (String × α)} {m : SortedMap α} {e : String × α}
    (h : e ∈ (entries.foldl (fun m e => m.insert e.1 e.2) m).entries) :
    e ∈ entries ∨ e ∈ m.entries := by
  induction entries generalizing m with
  | nil => exact .inr h
  | cons first entries ih =>
    rcases ih h with h | h
    · exact .inl (List.mem_cons_of_mem _ h)
    · rcases mem_insertEntry h with rfl | h
      · exact .inl List.mem_cons_self
      · exact .inr h

/-- All entries of a map are among those of which it was made. -/
theorem mem_of_mem_ofList {entries : List (String × α)} {e : String × α}
    (h : e ∈ (ofList entries).entries) : e ∈ entries := by
  rcases mem_of_mem_foldl_insert h with h | h
  · exact h
  · cases h

theorem perm_insertEntry {name : String} (value : α) {entries : List (String × α)}
    (h : name ∉ entries.map (·.1)) :
    (insertEntry name value entries).Perm ((name, value) :: entries) := by
  induction entries with
  | nil => exact .refl _
  | cons e rest ih =>
    obtain ⟨n, v⟩ := e
    rw [List.map_cons, List.mem_cons, not_or] at h
    rw [insertEntry]
    split
    · exact .refl _
    · rw [if_neg h.1]
      exact ((ih h.2).cons _).trans (.swap ..)

theorem perm_foldl_insert {entries : List (String × α)} {m : SortedMap α}
    (h : (entries.map (·.1) ++ m.names).Nodup) :
    (entries.foldl (fun m e => m.insert e.1 e.2) m).entries.Perm (entries ++ m.entries) := by
  induction entries generalizing m with
  | nil => exact .refl _
  | cons e entries ih =>
    have hfresh : e.1 ∉ m.names := by
      rw [List.map_cons, List.cons_append, List.nodup_cons, List.mem_append, not_or] at h
      exact h.1.2
    have hinsert : (m.insert e.1 e.2).entries.Perm (e :: m.entries) := perm_insertEntry e.2 hfresh
    have hnames : (entries.map (·.1) ++ (m.insert e.1 e.2).names).Nodup := by
      have hmoved := (hinsert.map (·.1)).append_left (entries.map (·.1))
      exact (hmoved.trans List.perm_middle).nodup_iff.2 h
    exact (ih hnames).trans ((hinsert.append_left entries).trans List.perm_middle)

/-- The order in which the entries of a map are put together does not matter. -/
theorem ofList_of_perm {entries : List (String × α)} {m : SortedMap α}
    (h : entries.Perm m.entries) : ofList entries = m := by
  have hsame : (entries.map (·.1)).Perm m.names := h.map _
  have hnames : m.names.Nodup := by
    refine m.pairwise_names.imp ?_
    rintro a _ hlt rfl
    exact String.lt_irrefl a hlt
  have hperm : (ofList entries).entries.Perm m.entries := by
    have hfresh : (entries.map (·.1) ++ (empty : SortedMap α).names).Nodup := by
      rw [show (empty : SortedMap α).names = [] from rfl, List.append_nil]
      exact hsame.nodup_iff.2 hnames
    have hfold := perm_foldl_insert hfresh
    rw [entries_empty, List.append_nil] at hfold
    exact hfold.trans h
  apply ext
  exact hperm.eq_of_pairwise (fun a b _ _ hab hba => absurd hba (String.lt_asymm hab))
    (ofList entries).ascending m.ascending

end SortedMap

end Uplink
