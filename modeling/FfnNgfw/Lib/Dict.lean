import Mathlib.Data.List.AList
import Mathlib.Data.List.Induction

/-!
# Dictionaries

A dictionary keeps its keys in the order in which they came; assigning to a key that is
there keeps its place. `AList` holds the same with the newest key in front.
-/

namespace FfnNgfw

abbrev Dict (K V : Type) := AList fun _ : K => V

namespace Dict

variable {K V : Type} [DecidableEq K]

-- The instance of `AList` does not evaluate.
instance [DecidableEq V] : DecidableEq (Dict K V) := fun a b => decidable_of_iff (a.entries = b.entries) AList.ext_iff.symm

def items (d : Dict K V) : List (K × V) := d.entries.reverse.map fun e => (e.1, e.2)

/-- `d[k] = v` -/
def assign (d : Dict K V) (k : K) (v : V) : Dict K V := if k ∈ d then d.replace k v else d.insert k v

theorem mem_items {d : Dict K V} {k : K} {v : V} : (k, v) ∈ d.items ↔ d.lookup k = some v := by
  unfold items
  rw [← Option.mem_def, AList.mem_lookup_iff]
  simp

omit [DecidableEq K] in
theorem items_nodup (d : Dict K V) : (d.items.map Prod.fst).Nodup := by
  have keys : d.items.map Prod.fst = d.keys.reverse := by
    simp [items, AList.keys, List.keys, List.map_reverse, Function.comp_def]
  rw [keys, List.nodup_reverse]
  exact d.keys_nodup

theorem dlookup_kreplace (l : List (Σ _ : K, V)) (k k' : K) (v : V) :
    (l.kreplace k v).dlookup k' = if k' = k ∧ k ∈ l.keys then some v else l.dlookup k' := by
  induction l with
  | nil => simp [List.kreplace]
  | cons e rest ih =>
    obtain ⟨k₀, v₀⟩ := e
    by_cases first : k = k₀
    · subst first
      have replaced : List.kreplace k v (⟨k, v₀⟩ :: rest) = ⟨k, v⟩ :: rest := by
        simp [List.kreplace, List.lookmap_cons_some]
      rw [replaced]
      by_cases same : k' = k
      · subst same
        simp
      · simp [same, List.dlookup_cons_ne]
    · have kept : List.kreplace k v (⟨k₀, v₀⟩ :: rest) = ⟨k₀, v₀⟩ :: List.kreplace k v rest := by
        simp [List.kreplace, List.lookmap_cons_none, first]
      rw [kept]
      by_cases here : k' = k₀
      · subst here
        simp [Ne.symm first]
      · rw [List.dlookup_cons_ne _ _ here, List.dlookup_cons_ne _ _ here, ih]
        simp [first]

theorem lookup_replace (d : Dict K V) (k k' : K) (v : V) :
    (d.replace k v).lookup k' = if k' = k ∧ k ∈ d then some v else d.lookup k' := by
  simp only [AList.lookup, AList.replace, AList.mem_keys, AList.keys, dlookup_kreplace]

theorem lookup_assign (d : Dict K V) (k k' : K) (v : V) :
    (d.assign k v).lookup k' = if k' = k then some v else d.lookup k' := by
  unfold assign
  by_cases there : k ∈ d
  · rw [if_pos there, lookup_replace]
    simp [there]
  · rw [if_neg there]
    by_cases same : k' = k
    · subst same
      simp
    · rw [if_neg same, AList.lookup_insert_ne same]

def ofItems (items : List (K × V)) : Dict K V := items.foldl (fun d item => d.assign item.1 item.2) ∅

theorem lookup_ofItems {items : List (K × V)} (functional : ∀ k v v', (k, v) ∈ items → (k, v') ∈ items → v = v') {k : K} {v : V} :
    (ofItems items).lookup k = some v ↔ (k, v) ∈ items := by
  induction items using List.reverseRecOn with
  | nil => exact iff_of_false (by simp [ofItems]) List.not_mem_nil
  | append_singleton front item ih =>
    have grown : ofItems (front ++ [item]) = (ofItems front).assign item.1 item.2 := by
      rw [ofItems, List.foldl_append]
      rfl
    have last : item ∈ front ++ [item] := List.mem_append_right _ (List.mem_singleton.mpr rfl)
    have before := ih fun k v v' one other => functional k v v' (List.mem_append_left _ one) (List.mem_append_left _ other)
    rw [grown, lookup_assign, List.mem_append, List.mem_singleton]
    by_cases same : k = item.1
    · subst same
      rw [if_pos rfl]
      constructor
      · rintro ⟨⟩
        exact .inr rfl
      · rintro (early | here)
        · exact congrArg some (functional _ _ _ last (List.mem_append_left _ early))
        · exact congrArg some (congrArg Prod.snd here).symm
    · rw [if_neg same, before]
      refine (or_iff_left ?_).symm
      rintro rfl
      exact same rfl

end Dict

end FfnNgfw
