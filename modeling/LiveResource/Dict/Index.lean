import LiveResource.Dict
import Std.Data.HashMap

set_option autoImplicit false

/-!
# Look-up tables

A dictionary walks over its entries to answer a look-up. Where it has to answer many of them, a hash
table of its entries gives the same answers (`Dict.getElem?_index`) without the walks.
-/

namespace LiveResource

def Dict.index {α : Type} (d : Dict α) : Std.HashMap String α := .ofList d.entries

theorem Dict.getElem?_index {α : Type} (d : Dict α) (key : String) :
    d.index[key]? = d.get? key := by
  cases h : d.get? key with
  | some value =>
    have hd : d.entries.Pairwise fun a b => (a.1 == b.1) = false :=
      d.sorted.imp fun hab => beq_eq_false_iff_ne.mpr fun heq => String.lt_irrefl _ (heq ▸ hab)
    exact Std.HashMap.getElem?_ofList_of_mem (by simp) hd (mem_entries_iff.mpr h)
  | none =>
    refine Std.HashMap.getElem?_ofList_of_contains_eq_false ?_
    rw [List.contains_eq_mem, decide_eq_false_iff_not, List.mem_map]
    rintro ⟨⟨k, v⟩, hmem, rfl⟩
    rw [mem_entries_iff.mp hmem] at h
    exact absurd h (by simp)

end LiveResource
