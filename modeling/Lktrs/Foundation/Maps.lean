import Mathlib.Tactic
import Std.Data.ExtTreeMap.Lemmas
import Std.Data.ExtTreeSet.Lemmas

/-!
# Maps and their entry lists

A Go map is an extensional tree map, so equal contents are equal maps, and a map
that only stores true a set. Here: what is stored after an update, and that the
map or set rebuilt from its listing is the one listed.
-/

set_option autoImplicit false

namespace Lktrs.Foundation

open Std (ExtTreeMap ExtTreeSet)

universe u v

variable {κ : Type u} {α : Type v} {cmp : κ → κ → Ordering} [Std.TransCmp cmp]

theorem nodup_keys_toList (t : ExtTreeMap κ α cmp) : (t.toList.map Prod.fst).Nodup := by
  rw [ExtTreeMap.map_fst_toList_eq_keys]
  exact ExtTreeMap.nodup_keys

variable [Std.LawfulEqCmp cmp]

theorem ofList_toList (t : ExtTreeMap κ α cmp) : ExtTreeMap.ofList t.toList cmp = t := by
  classical
  refine ExtTreeMap.ext_getElem? fun key => ?_
  cases h : t[key]? with
  | some a =>
      refine ExtTreeMap.getElem?_ofList_of_mem Std.ReflCmp.compare_self
        ExtTreeMap.distinct_keys_toList ?_
      exact ExtTreeMap.mem_toList_iff_getElem?_eq_some.2 h
  | none =>
      apply ExtTreeMap.getElem?_ofList_of_contains_eq_false
      rw [ExtTreeMap.map_fst_toList_eq_keys]
      simp only [List.contains_eq_mem, decide_eq_false_iff_not, ExtTreeMap.mem_keys]
      intro hmem
      rw [ExtTreeMap.mem_iff_isSome_getElem?, h] at hmem
      cases hmem

theorem foldl_insert_toList (t : ExtTreeMap κ α cmp) :
    t.toList.foldl (fun m e => m.insert e.1 e.2) ∅ = t := by
  have hfold (l : List (κ × α)) (m : ExtTreeMap κ α cmp) :
      l.foldl (fun m e => m.insert e.1 e.2) m = m.insertMany l := by
    induction l generalizing m with
    | nil => simp
    | cons e l ih => rw [List.foldl_cons, ih, ExtTreeMap.insertMany_cons]
  rw [hfold, ← ExtTreeMap.ofList_eq_insertMany_empty, ofList_toList]

theorem getElem?_insert_of_ne {t : ExtTreeMap κ α cmp} {k a : κ} {v : α} (h : k ≠ a) :
    (t.insert k v)[a]? = t[a]? := by
  rw [ExtTreeMap.getElem?_insert, if_neg (mt Std.LawfulEqCmp.eq_of_compare h)]

theorem getElem?_insertIfNew_of_new [DecidableEq κ] {t : ExtTreeMap κ α cmp} {k a : κ} {v : α}
    (h : t[k]? = none) : (t.insertIfNew k v)[a]? = if k = a then some v else t[a]? := by
  have hmem : k ∉ t := by
    rw [ExtTreeMap.mem_iff_isSome_getElem?, h]
    exact Bool.false_ne_true
  rw [ExtTreeMap.getElem?_insertIfNew]
  simp only [Std.LawfulEqCmp.compare_eq_iff_eq, hmem, not_false_iff, and_true]

/-- Storing a value that agrees with what the key held keeps every entry. -/
theorem getElem?_insert_of_agree {t : ExtTreeMap κ α cmp} {k a : κ} {v w : α}
    (hagree : ∀ u, t[k]? = some u → u = v) (h : t[a]? = some w) : (t.insert k v)[a]? = some w := by
  rw [ExtTreeMap.getElem?_insert]
  split_ifs with hk
  · rw [← Std.LawfulEqCmp.eq_of_compare hk] at h
    rw [hagree w h]
  · exact h

/-- Deleting a key that was just added gives the map before. -/
theorem erase_insert_of_new {t : ExtTreeMap κ α cmp} {k : κ} {v : α} (h : t[k]? = none) :
    (t.insert k v).erase k = t := by
  refine ExtTreeMap.ext_getElem? fun a => ?_
  rw [ExtTreeMap.getElem?_erase]
  split_ifs with hk
  · rw [← Std.LawfulEqCmp.eq_of_compare hk, h]
  · rw [ExtTreeMap.getElem?_insert, if_neg hk]

/-- Two maps that agree on the entries that are kept list them alike. -/
theorem filter_toList_congr {t t' : ExtTreeMap κ α cmp} {keep : κ × α → Bool}
    (h : ∀ k a, keep (k, a) = true → (t[k]? = some a ↔ t'[k]? = some a)) :
    t.toList.filter keep = t'.toList.filter keep := by
  have hmem : ∀ e : κ × α, e ∈ t.toList.filter keep ↔ e ∈ t'.toList.filter keep := by
    rintro ⟨k, a⟩
    simp only [List.mem_filter, ExtTreeMap.mem_toList_iff_getElem?_eq_some]
    exact and_congr_left (h k a)
  have hnodup (s : ExtTreeMap κ α cmp) : (s.toList.filter keep).Nodup :=
    ((nodup_keys_toList s).of_map Prod.fst).filter keep
  have hperm : (t.toList.filter keep).Perm (t'.toList.filter keep) :=
    (List.perm_ext_iff_of_nodup (hnodup t) (hnodup t')).2 hmem
  -- listings are ordered by key
  refine hperm.eq_of_pairwise ?_ (ExtTreeMap.ordered_keys_toList.filter keep)
    (ExtTreeMap.ordered_keys_toList.filter keep)
  rintro e e' - - hlt hgt
  exact absurd hgt (Std.OrientedCmp.not_lt_of_lt hlt)

theorem mem_set_insert {t : ExtTreeSet κ cmp} {k a : κ} : a ∈ t.insert k ↔ a = k ∨ a ∈ t := by
  rw [ExtTreeSet.mem_insert, Std.LawfulEqCmp.compare_eq_iff_eq, eq_comm]

theorem foldl_set_insert_toList (t : ExtTreeSet κ cmp) : t.toList.foldl ExtTreeSet.insert ∅ = t := by
  have hfold (l : List κ) (m : ExtTreeSet κ cmp) (a : κ) :
      a ∈ l.foldl ExtTreeSet.insert m ↔ a ∈ l ∨ a ∈ m := by
    induction l generalizing m with
    | nil => simp
    | cons e l ih => rw [List.foldl_cons, ih, mem_set_insert, List.mem_cons]; tauto
  refine ExtTreeSet.ext_mem fun a => ?_
  rw [hfold, ExtTreeSet.mem_toList]
  simp

end Lktrs.Foundation
