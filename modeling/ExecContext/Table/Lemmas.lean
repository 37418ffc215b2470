import ExecContext.Table.Basic

/-!
# Laws of tables

What each operation does to the names of a table and to what it holds.

Main results:

- Theorem `Table.get?_insert`: a name holds what was written under it last.
- Theorems `Table.names_insert_of_mem` and `Table.names_insert_of_not_mem`:
  writing keeps a known name's place and appends a new one.
- Theorem `Table.get?_modify`: changing one name leaves the others alone.
- Theorem `Table.mem_entries_iff`: the entries are what the names hold.
- Theorem `Table.get?_filter`: a restricted table holds what passes the test.
- Theorems `Table.modify_eq_self` and `Table.insert_eq_self`: writing what is there
  changes nothing.
- Theorem `Table.insert_eq_modify`: writing a known name changes what it holds.
- Theorem `Table.get?_ofList`: a collected table holds the last entry of each name.
-/

namespace ExecContext

namespace Table

variable {α β : Type}

/-! ## Names -/

@[simp]
theorem names_empty : (empty : Table α).names = [] :=
  rfl

theorem nodup_names (t : Table α) : t.names.Nodup :=
  t.distinct

@[simp]
theorem length_names (t : Table α) : t.names.length = t.size := by
  simp [names, size]

theorem names_insert (t : Table α) (name : ByteString) (a : α) :
    (t.insert name a).names = if name ∈ t.names then t.names else t.names ++ [name] :=
  map_fst_writeEntry name a t.entries

/-- Writing a known name keeps all names in their places. -/
theorem names_insert_of_mem {t : Table α} {name : ByteString} (a : α) (h : name ∈ t.names) :
    (t.insert name a).names = t.names := by
  rw [names_insert, if_pos h]

/-- Writing a new name appends it. -/
theorem names_insert_of_not_mem {t : Table α} {name : ByteString} (a : α) (h : name ∉ t.names) :
    (t.insert name a).names = t.names ++ [name] := by
  rw [names_insert, if_neg h]

@[simp]
theorem names_modify (t : Table α) (name : ByteString) (f : α → α) :
    (t.modify name f).names = t.names := by
  unfold names modify
  rw [List.map_map]
  refine List.map_congr_left fun e _ => ?_
  simp only [Function.comp_apply]
  split <;> rfl

@[simp]
theorem names_map (t : Table α) (f : α → β) : (t.map f).names = t.names := by
  simp [names, map]

@[simp]
theorem size_modify (t : Table α) (name : ByteString) (f : α → α) :
    (t.modify name f).size = t.size := by
  simp [size, modify]

/-! ## Contents -/

@[simp]
theorem get?_empty (name : ByteString) : (empty : Table α).get? name = none :=
  rfl

@[simp]
theorem contains_empty (name : ByteString) : (empty : Table α).contains name = false :=
  rfl

theorem lookup_writeEntry (name other : ByteString) (a : α) (es : List (ByteString × α)) :
    (writeEntry name a es).lookup other = if other = name then some a else es.lookup other := by
  induction es with
  | nil =>
    by_cases h : other = name
    · simp [writeEntry, h]
    · have h' : (other == name) = false := by simp [h]
      simp [writeEntry, List.lookup_cons, h, h']
  | cons e rest ih =>
    obtain ⟨key, b⟩ := e
    by_cases he : key = name
    · by_cases h : other = name
      · simp [writeEntry, he, h]
      · have h' : (other == name) = false := by simp [h]
        simp [writeEntry, he, h, List.lookup_cons, h']
    · by_cases ho : other = key
      · have h : ¬ other = name := fun hn => he (ho.symm.trans hn)
        simp [writeEntry, ho, he]
      · have h' : (other == key) = false := by simp [ho]
        simp [writeEntry, he, List.lookup_cons, h', ih]

/-- A name holds what was written under it last. -/
theorem get?_insert (t : Table α) (name other : ByteString) (a : α) :
    (t.insert name a).get? other = if other = name then some a else t.get? other :=
  lookup_writeEntry name other a t.entries

@[simp]
theorem get?_insert_self (t : Table α) (name : ByteString) (a : α) :
    (t.insert name a).get? name = some a := by
  simp [get?_insert]

/-- Changing one name leaves the others alone. -/
theorem get?_modify (t : Table α) (name other : ByteString) (f : α → α) :
    (t.modify name f).get? other =
      if other = name then (t.get? other).map f else t.get? other := by
  change (t.entries.map fun e => if e.1 = name then (e.1, f e.2) else e).lookup other =
    if other = name then (t.entries.lookup other).map f else t.entries.lookup other
  induction t.entries with
  | nil => simp
  | cons e rest ih =>
    obtain ⟨key, b⟩ := e
    rw [List.map_cons]
    by_cases ho : other = key
    · by_cases he : key = name <;> simp [ho, he]
    · have h' : (other == key) = false := by simp [ho]
      have hk : (if key = name then (key, f b) else (key, b)).1 = key := by split <;> rfl
      rw [List.lookup_cons, hk, h', ih, List.lookup_cons, h']

@[simp]
theorem get?_map (t : Table α) (f : α → β) (name : ByteString) :
    (t.map f).get? name = (t.get? name).map f := by
  change (t.entries.map fun e => (e.1, f e.2)).lookup name = (t.entries.lookup name).map f
  induction t.entries with
  | nil => rfl
  | cons e rest ih =>
    obtain ⟨key, b⟩ := e
    cases h : name == key <;> simp [List.lookup_cons, h, ih]

/-- A name is held exactly when it is among the names. -/
theorem contains_eq_true_iff (t : Table α) (name : ByteString) :
    t.contains name = true ↔ name ∈ t.names := by
  unfold contains get? names
  induction t.entries with
  | nil => simp
  | cons e rest ih =>
    rw [List.lookup_cons, List.map_cons, List.mem_cons]
    by_cases h : name = e.1
    · simp [h]
    · have h' : (name == e.1) = false := by simp [h]
      simp only [h', h, false_or]
      exact ih

/-- Writing a new name makes the table larger by one. -/
theorem size_insert_of_get?_eq_none {t : Table α} {name : ByteString} (a : α)
    (h : t.get? name = none) : (t.insert name a).size = t.size + 1 := by
  have hnew : name ∉ t.names := by
    rw [← contains_eq_true_iff, contains, h]
    simp
  rw [← length_names, names_insert_of_not_mem a hnew, List.length_append, length_names,
    List.length_singleton]

/-- Writing makes the table larger by one, unless the name is known. -/
theorem size_insert (t : Table α) (name : ByteString) (a : α) :
    (t.insert name a).size = t.size + if t.contains name then 0 else 1 := by
  cases h : t.contains name with
  | true =>
    rw [← length_names, names_insert_of_mem a ((contains_eq_true_iff t name).mp h), length_names]
    rfl
  | false =>
    have hnone : t.get? name = none := by simpa [contains] using h
    exact size_insert_of_get?_eq_none a hnone

/-- The entries of a table are exactly what its names hold. -/
theorem mem_entries_iff (t : Table α) (name : ByteString) (a : α) :
    (name, a) ∈ t.entries ↔ t.get? name = some a := by
  obtain ⟨es, hd⟩ := t
  change (name, a) ∈ es ↔ es.lookup name = some a
  induction es with
  | nil => simp
  | cons e rest ih =>
    have hd' : e.1 ∉ rest.map Prod.fst ∧ (rest.map Prod.fst).Nodup := List.nodup_cons.mp hd
    rw [List.mem_cons, List.lookup_cons]
    by_cases h : name = e.1
    · have hn : (name, a) ∉ rest := fun hm =>
        hd'.1 (List.mem_map.mpr ⟨(name, a), hm, h⟩)
      have hb : (name == e.1) = true := by simp [h]
      simp only [hn, or_false, hb, Option.some.injEq]
      exact ⟨fun he => he ▸ rfl, fun he => Prod.ext h he.symm⟩
    · have hb : (name == e.1) = false := by simp [h]
      have hne : ¬ (name, a) = e := fun he => h (congrArg Prod.fst he)
      simp only [hne, false_or, hb]
      exact ih hd'.2

/-- Among entries of distinct names it does not matter from which end one is looked up. -/
theorem lookup_reverse {es : List (ByteString × α)} (h : (es.map Prod.fst).Nodup)
    (name : ByteString) : es.reverse.lookup name = es.lookup name := by
  have hreverse : (es.reverse.map Prod.fst).Nodup := by
    rw [List.map_reverse]
    exact (List.reverse_perm _).nodup_iff.mpr h
  apply Option.ext
  intro a
  have hforth : (name, a) ∈ es ↔ es.lookup name = some a := mem_entries_iff ⟨es, h⟩ name a
  have hback : (name, a) ∈ es.reverse ↔ es.reverse.lookup name = some a :=
    mem_entries_iff ⟨es.reverse, hreverse⟩ name a
  rw [← hforth, ← hback, List.mem_reverse]

/-! ## Restricting -/

@[simp]
theorem entries_filter (p : ByteString → α → Bool) (t : Table α) :
    (t.filter p).entries = t.entries.filter fun e => p e.1 e.2 :=
  rfl

@[simp]
theorem entries_map (t : Table α) (f : α → β) :
    (t.map f).entries = t.entries.map fun e => (e.1, f e.2) :=
  rfl

/-- A restricted table holds under each name what passes the test. -/
theorem get?_filter (p : ByteString → α → Bool) (t : Table α) (name : ByteString) :
    (t.filter p).get? name = (t.get? name).filter (p name) := by
  have h : ∀ a, (t.filter p).get? name = some a ↔ (t.get? name).filter (p name) = some a := by
    intro a
    rw [← mem_entries_iff, entries_filter, List.mem_filter, mem_entries_iff,
      Option.filter_eq_some_iff]
  exact Option.ext h

/-- Restricting twice is restricting by both tests. -/
theorem filter_filter (p q : ByteString → α → Bool) (t : Table α) :
    (t.filter p).filter q = t.filter fun name a => p name a && q name a := by
  apply ext
  rw [entries_filter, entries_filter, entries_filter, List.filter_filter]
  exact List.filter_congr fun e _ => Bool.and_comm _ _

/-- Tests that agree on the entries of a table restrict it alike. -/
theorem filter_congr {p q : ByteString → α → Bool} {t : Table α}
    (h : ∀ e ∈ t.entries, p e.1 e.2 = q e.1 e.2) : t.filter p = t.filter q :=
  ext (List.filter_congr h)

/-- A test that all entries pass leaves a table as it is. -/
theorem filter_eq_self {p : ByteString → α → Bool} {t : Table α}
    (h : ∀ e ∈ t.entries, p e.1 e.2 = true) : t.filter p = t :=
  ext (List.filter_eq_self.mpr h)

/-! ## Writing what is there -/

/-- Changes that agree on what their name holds are one change. -/
theorem modify_congr {t : Table α} {name : ByteString} {f g : α → α}
    (h : ∀ a, t.get? name = some a → f a = g a) : t.modify name f = t.modify name g := by
  apply ext
  change (t.entries.map fun e => if e.1 = name then (e.1, f e.2) else e) =
    t.entries.map fun e => if e.1 = name then (e.1, g e.2) else e
  refine List.map_congr_left fun e he => ?_
  by_cases hname : e.1 = name
  · have hheld : t.get? name = some e.2 := (mem_entries_iff t name e.2).mp (hname ▸ he)
    rw [if_pos hname, if_pos hname, h e.2 hheld]
  · rw [if_neg hname, if_neg hname]

theorem modify_id (t : Table α) (name : ByteString) : t.modify name id = t := by
  apply ext
  change (t.entries.map fun e => if e.1 = name then e else e) = t.entries
  simp only [ite_self, List.map_id']

/-- A change that keeps what its name holds changes nothing. -/
theorem modify_eq_self {t : Table α} {name : ByteString} {f : α → α}
    (h : ∀ a, t.get? name = some a → f a = a) : t.modify name f = t :=
  (modify_congr h).trans (t.modify_id name)

/-- Changing a name that holds nothing changes nothing. -/
theorem modify_of_not_contains {t : Table α} {name : ByteString} (f : α → α)
    (h : t.contains name = false) : t.modify name f = t := by
  apply modify_eq_self
  intro a ha
  have hcontains : t.contains name = true := by simp [contains, ha]
  rw [h] at hcontains
  contradiction

theorem writeEntry_eq_self {name : ByteString} {a : α} {es : List (ByteString × α)}
    (h : es.lookup name = some a) : writeEntry name a es = es := by
  induction es with
  | nil => cases h
  | cons e rest ih =>
    obtain ⟨key, b⟩ := e
    by_cases hkey : key = name
    · have hb : b = a := by simpa [List.lookup_cons, hkey] using h
      simp [writeEntry, hkey, hb]
    · have hne : (name == key) = false := by simp [Ne.symm hkey]
      rw [List.lookup_cons, hne] at h
      simp [writeEntry, hkey, ih h]

theorem writeEntry_eq_map {name : ByteString} (a : α) {es : List (ByteString × α)}
    (distinct : (es.map Prod.fst).Nodup) (h : name ∈ es.map Prod.fst) :
    writeEntry name a es = es.map fun e => if e.1 = name then (e.1, a) else e := by
  induction es with
  | nil => cases h
  | cons e rest ih =>
    have hd : e.1 ∉ rest.map Prod.fst ∧ (rest.map Prod.fst).Nodup := List.nodup_cons.mp distinct
    by_cases hkey : e.1 = name
    · have hrest : (rest.map fun e => if e.1 = name then (e.1, a) else e) = rest := by
        refine (List.map_congr_left fun d hmem => ?_).trans (List.map_id rest)
        have hne : d.1 ≠ name := fun hdup =>
          hd.1 (List.mem_map.mpr ⟨d, hmem, hdup.trans hkey.symm⟩)
        rw [if_neg hne, id_eq]
      rw [writeEntry, if_pos hkey, List.map_cons, if_pos hkey, hrest, hkey]
    · have hmem : name ∈ rest.map Prod.fst :=
        (List.mem_cons.mp h).resolve_left fun hname => hkey hname.symm
      rw [writeEntry, if_neg hkey, List.map_cons, if_neg hkey, ih hd.2 hmem]

/-- Writing a known name changes what it holds. -/
theorem insert_eq_modify {t : Table α} {name : ByteString} (a : α)
    (h : t.contains name = true) : t.insert name a = t.modify name fun _ => a :=
  ext (writeEntry_eq_map a t.distinct ((contains_eq_true_iff t name).mp h))

/-- Writing what a name holds changes nothing. -/
theorem insert_eq_self {t : Table α} {name : ByteString} {a : α} (h : t.get? name = some a) :
    t.insert name a = t :=
  ext (writeEntry_eq_self h)

/-! ## Collecting -/

@[simp]
theorem ofList_nil : ofList ([] : List (ByteString × α)) = empty :=
  rfl

/-- Collecting one more entry writes it last. -/
theorem ofList_concat (es : List (ByteString × α)) (e : ByteString × α) :
    ofList (es ++ [e]) = (ofList es).insert e.1 e.2 := by
  simp [ofList]

theorem get?_foldl_insert (t : Table α) (es : List (ByteString × α)) (name : ByteString) :
    (es.foldl (fun t e => t.insert e.1 e.2) t).get? name =
      (es.reverse.lookup name).or (t.get? name) := by
  induction es generalizing t with
  | nil => simp
  | cons e es ih =>
    rw [List.foldl_cons, ih, get?_insert, List.reverse_cons, List.lookup_append, Option.or_assoc,
      List.lookup_cons, List.lookup_nil]
    by_cases h : name = e.1
    · rw [if_pos h, show (name == e.1) = true by simp [h]]
      rfl
    · rw [if_neg h, show (name == e.1) = false by simp [h]]
      rfl

/-- A collected table holds the last entry of each name. -/
theorem get?_ofList (es : List (ByteString × α)) (name : ByteString) :
    (ofList es).get? name = es.reverse.lookup name := by
  simp [ofList, get?_foldl_insert]

end Table

end ExecContext
