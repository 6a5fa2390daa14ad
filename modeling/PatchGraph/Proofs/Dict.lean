import Mathlib.Data.List.Sort
import PatchGraph.Dict

/-!
# Tables as functions of names

A table is determined by what is found under each name (`Dict.ext_get?`). So entries of different names can be put into it in either
order, and a table is made again from its own entries, changed or not (`foldl_insert_map`).
-/

namespace PatchGraph.Dict

variable {α : Type}

theorem nodup_keys (d : Dict α) : (d.entries.map (·.1)).Nodup := by
  refine List.pairwise_map.2 (d.ascending.imp ?_)
  intro e f hlt heq
  exact String.lt_irrefl _ (heq ▸ hlt)

/-- Tables with the same entries are equal. -/
theorem eq_of_perm {d e : Dict α} (h : d.entries.Perm e.entries) : d = e := by
  refine Dict.ext (List.Perm.eq_of_pairwise ?_ d.ascending e.ascending h)
  intro f g _ _ hlt hgt
  exact absurd (String.lt_trans hlt hgt) (String.lt_irrefl _)

/-- What stands under a name is the entry of that name. -/
theorem get?_eq_some_iff {d : Dict α} {name : String} {a : α} : d.get? name = some a ↔ (name, a) ∈ d.entries := by
  refine ⟨mem_entries_of_get?, fun h => ?_⟩
  cases hget : d.get? name with
  | none =>
    rw [get?, List.lookup_eq_none_iff] at hget
    exact absurd rfl (bne_iff_ne.1 (hget _ h))
  | some b =>
    have hb := mem_entries_of_get? hget
    have heq := List.inj_on_of_nodup_map d.nodup_keys hb h rfl
    exact congrArg some (congrArg Prod.snd heq)

/-- Tables in which the same is found under every name are equal. -/
theorem ext_get? {d e : Dict α} (h : ∀ name, d.get? name = e.get? name) : d = e := by
  refine eq_of_perm ((List.perm_ext_iff_of_nodup d.nodup_keys.of_map e.nodup_keys.of_map).2 ?_)
  rintro ⟨name, a⟩
  rw [← get?_eq_some_iff, h, get?_eq_some_iff]

/-- Entries of different names can be put into a table in either order. -/
theorem insert_comm (d : Dict α) {m n : String} (h : m ≠ n) (a b : α) :
    (d.insert m a).insert n b = (d.insert n b).insert m a := by
  refine ext_get? fun name => ?_
  simp only [get?_insert]
  by_cases hm : name = m
  · subst hm
    simp [h]
  · simp [hm]

theorem place_of_lt {name : String} {es : List (String × α)} (h : ∀ e ∈ es, e.1 < name) (a : α) :
    place name a es = es ++ [(name, a)] := by
  induction es with
  | nil => rfl
  | cons e rest ih =>
    rw [List.forall_mem_cons] at h
    have hnlt : ¬name < e.1 := fun hlt => String.lt_irrefl _ (String.lt_trans h.1 hlt)
    rw [place, if_neg hnlt, if_pos h.1, ih h.2, List.cons_append]

/-- Entries that are put into a table in ascending order are appended. -/
theorem entries_foldl_insert {es : List (String × α)} {d : Dict α} (h : (d.entries ++ es).Pairwise fun a b => a.1 < b.1) :
    (es.foldl (fun d e => d.insert e.1 e.2) d).entries = d.entries ++ es := by
  induction es generalizing d with
  | nil => rw [List.foldl_nil, List.append_nil]
  | cons e es ih =>
    have hlt : ∀ f ∈ d.entries, f.1 < e.1 := fun f hf => (List.pairwise_append.1 h).2.2 f hf e List.mem_cons_self
    have hinsert : (d.insert e.1 e.2).entries = d.entries ++ [e] := place_of_lt hlt e.2
    rw [List.foldl_cons, ih (by rwa [hinsert, List.append_assoc]), hinsert, List.append_assoc]
    rfl

/-- A table is made again from its own entries. -/
theorem foldl_insert_entries (d : Dict α) : d.entries.foldl (fun d e => d.insert e.1 e.2) {} = d :=
  Dict.ext (entries_foldl_insert d.ascending)

/-! ## Changing all values -/

variable {β : Type}

/-- The table with each value changed by a function. -/
def map (f : α → β) (d : Dict α) : Dict β := ⟨d.entries.map fun e => (e.1, f e.2), List.pairwise_map.2 d.ascending⟩

theorem get?_map (f : α → β) (d : Dict α) (name : String) : (d.map f).get? name = (d.get? name).map f := by
  rcases d with ⟨es, ascending⟩
  show (es.map fun e => (e.1, f e.2)).lookup name = (es.lookup name).map f
  clear ascending
  induction es with
  | nil => rfl
  | cons e es ih =>
    rw [List.map_cons, lookup_cons_ite, lookup_cons_ite, ih]
    split <;> rfl

/-- A table is changed by putting its changed entries into an empty one. -/
theorem foldl_insert_map (f : α → β) (d : Dict α) : d.entries.foldl (fun t e => t.insert e.1 (f e.2)) {} = d.map f := by
  rw [← foldl_insert_entries (d.map f), map, List.foldl_map]

end PatchGraph.Dict
