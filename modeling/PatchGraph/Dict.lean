/-!
# Tables sorted by name

A `Dict` is a table of values under distinct names, kept in ascending order of the names. Two tables with the same entries are
equal, whatever order the entries were put in.
-/

namespace PatchGraph

/-- What is found under a name in a list of entries is one of the entries. -/
theorem mem_of_lookup {κ α : Type} [BEq κ] [LawfulBEq κ] {es : List (κ × α)} {k : κ} {a : α} (h : es.lookup k = some a) :
    (k, a) ∈ es := by
  obtain ⟨before, after, heq, -⟩ := List.lookup_eq_some_iff.1 h
  rw [heq]
  exact List.mem_append_right _ List.mem_cons_self

/-- A table of values under distinct names, in ascending order of the names. -/
structure Dict (α : Type) where
  entries : List (String × α)
  ascending : entries.Pairwise (fun a b => a.1 < b.1)

namespace Dict

variable {α : Type}

@[ext]
theorem ext {d e : Dict α} (h : d.entries = e.entries) : d = e := by
  cases d; cases e; cases h; rfl

instance [DecidableEq α] : DecidableEq (Dict α) := fun d e =>
  if h : d.entries = e.entries then isTrue (Dict.ext h) else isFalse fun he => h (he ▸ rfl)

/-- The table without entries. -/
def empty : Dict α := ⟨[], .nil⟩

instance : Inhabited (Dict α) := ⟨empty⟩

instance : EmptyCollection (Dict α) := ⟨empty⟩

/-- The value under a name. -/
def get? (d : Dict α) (name : String) : Option α := d.entries.lookup name

/-- Whether there is a value under a name. -/
def contains (d : Dict α) (name : String) : Bool := (d.get? name).isSome

/-- The number of entries. -/
def size (d : Dict α) : Nat := d.entries.length

/-- Whether there are no entries. -/
def isEmpty (d : Dict α) : Bool := d.entries.isEmpty

/-- The values, in the order of their names. -/
def values (d : Dict α) : List α := d.entries.map (·.2)

/-- Put an entry at its place in a list of entries; an entry of the same name is replaced. -/
def place (name : String) (a : α) : List (String × α) → List (String × α)
  | [] => [(name, a)]
  | e :: rest =>
    if name < e.1 then (name, a) :: e :: rest
    else if e.1 < name then e :: place name a rest
    else (name, a) :: rest

/-- What is in the list after an entry was placed is the entry or was there before. -/
theorem mem_place {name : String} {a : α} {es : List (String × α)} {e : String × α} (h : e ∈ place name a es) :
    e = (name, a) ∨ e ∈ es := by
  induction es with
  | nil => exact Or.inl (List.mem_singleton.1 h)
  | cons f rest ih =>
    unfold place at h
    split at h
    · rcases List.mem_cons.1 h with h | h
      · exact Or.inl h
      · exact Or.inr h
    · split at h
      · rcases List.mem_cons.1 h with h | h
        · exact Or.inr (h ▸ List.mem_cons_self)
        · exact (ih h).imp id (List.mem_cons_of_mem _)
      · rcases List.mem_cons.1 h with h | h
        · exact Or.inl h
        · exact Or.inr (List.mem_cons_of_mem _ h)

/-- Names stay in ascending order. -/
theorem pairwise_place {name : String} {a : α} {es : List (String × α)} (h : es.Pairwise (fun a b => a.1 < b.1)) :
    (place name a es).Pairwise (fun a b => a.1 < b.1) := by
  induction es with
  | nil => exact List.pairwise_singleton _ _
  | cons f rest ih =>
    obtain ⟨hf, hrest⟩ := List.pairwise_cons.1 h
    unfold place
    split
    · rename_i hlt
      refine List.pairwise_cons.2 ⟨fun e he => ?_, h⟩
      rcases List.mem_cons.1 he with rfl | he
      · exact hlt
      · exact String.lt_trans hlt (hf e he)
    · rename_i hnlt
      split
      · rename_i hgt
        refine List.pairwise_cons.2 ⟨fun e he => ?_, ih hrest⟩
        rcases mem_place he with rfl | he
        · exact hgt
        · exact hf e he
      · rename_i hngt
        have heq : name = f.1 := String.le_antisymm (String.not_lt.1 hngt) (String.not_lt.1 hnlt)
        refine List.pairwise_cons.2 ⟨fun e he => ?_, hrest⟩
        rw [heq]
        exact hf e he

/-- The first entry of a name is found. -/
theorem lookup_cons_ite (key : String) (e : String × α) (es : List (String × α)) :
    (e :: es).lookup key = if key = e.1 then some e.2 else es.lookup key := by
  rw [List.lookup_cons]
  by_cases h : key = e.1
  · rw [beq_iff_eq.2 h, if_pos h]
  · rw [beq_eq_false_iff_ne.2 h, if_neg h]

/-- A placed entry is found under its name, and under other names what was there before. -/
theorem lookup_place (name key : String) (a : α) (es : List (String × α)) :
    (place name a es).lookup key = if key = name then some a else es.lookup key := by
  induction es with
  | nil => exact lookup_cons_ite key (name, a) []
  | cons e rest ih =>
    unfold place
    split
    · exact lookup_cons_ite key (name, a) (e :: rest)
    · rename_i hnlt
      split
      · rename_i hgt
        rw [lookup_cons_ite, lookup_cons_ite, ih]
        by_cases h : key = e.1
        · have hne : key ≠ name := fun hname => String.lt_irrefl _ ((h.symm.trans hname) ▸ hgt)
          rw [if_pos h, if_pos h, if_neg hne]
        · rw [if_neg h, if_neg h]
      · rename_i hngt
        have heq : name = e.1 := String.le_antisymm (String.not_lt.1 hngt) (String.not_lt.1 hnlt)
        rw [lookup_cons_ite, lookup_cons_ite, heq]
        by_cases h : key = e.1
        · rw [if_pos h, if_pos h]
        · rw [if_neg h, if_neg h, if_neg h]

/-- Put a value under a name, replacing what was there. -/
def insert (d : Dict α) (name : String) (a : α) : Dict α := ⟨place name a d.entries, pairwise_place d.ascending⟩

/-- What is found is an entry. -/
theorem mem_entries_of_get? {d : Dict α} {name : String} {a : α} (h : d.get? name = some a) : (name, a) ∈ d.entries :=
  mem_of_lookup h

/-- What is found is a value of the table. -/
theorem mem_values_of_get? {d : Dict α} {name : String} {a : α} (h : d.get? name = some a) : a ∈ d.values :=
  List.mem_map_of_mem (mem_entries_of_get? h)

/-- A value after an insertion is the new one or was there before. -/
theorem mem_values_insert {d : Dict α} {name : String} {a x : α} (h : x ∈ (d.insert name a).values) : x = a ∨ x ∈ d.values := by
  obtain ⟨e, he, rfl⟩ := List.mem_map.1 h
  exact (mem_place he).imp (congrArg Prod.snd) List.mem_map_of_mem

/-- A table after one more entry. -/
theorem get?_insert (d : Dict α) (name key : String) (a : α) : (d.insert name a).get? key = if key = name then some a else d.get? key :=
  lookup_place name key a d.entries

/-- The table of a list of entries; of two entries with the same name the later one stays. -/
def ofList (entries : List (String × α)) : Dict α := entries.foldl (fun d e => d.insert e.1 e.2) empty

end Dict

end PatchGraph
