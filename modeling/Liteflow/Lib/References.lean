import Mathlib.Data.List.Basic
import Mathlib.Logic.Function.Basic

/-!
# Tables of references

A heap of objects and tables that keep references to them under keys. `Refers heap table rel` says
that no reference of the table dangles, and that the object it leads to is related to its key.
-/

namespace References

variable {κ ρ α : Type} {heap : ρ → Option α} {table : List (κ × ρ)}
  {rel : κ → α → Prop} {ref : ρ} {object object' : α}

/-- Every entry leads to an object that `rel` relates to the key. -/
def Refers (heap : ρ → Option α) (table : List (κ × ρ)) (rel : κ → α → Prop) : Prop :=
  ∀ key ref, (key, ref) ∈ table → ∃ object, heap ref = some object ∧ rel key object

namespace Refers

theorem nil : Refers heap ([] : List (κ × ρ)) rel := by
  intro key ref hmem
  cases hmem

theorem subset {table' : List (κ × ρ)} (href : Refers heap table rel) (hsub : table' ⊆ table) :
    Refers heap table' rel :=
  fun key ref hmem => href key ref (hsub hmem)

theorem append {key : κ} (href : Refers heap table rel) (hheap : heap ref = some object)
    (hrel : rel key object) : Refers heap (table ++ [(key, ref)]) rel := by
  intro key' ref' hmem
  rcases List.mem_append.mp hmem with hmem | hmem
  · exact href key' ref' hmem
  · obtain ⟨rfl, rfl⟩ : key' = key ∧ ref' = ref := by simpa using hmem
    exact ⟨object, hheap, hrel⟩

theorem isSome {entry : κ × ρ} (href : Refers heap table rel) (hmem : entry ∈ table) :
    (heap entry.2).isSome := by
  obtain ⟨object, hheap, -⟩ := href entry.1 entry.2 hmem
  exact hheap ▸ rfl

theorem rel_of_mem {key : κ} (href : Refers heap table rel) (hheap : heap ref = some object)
    (hmem : (key, ref) ∈ table) : rel key object := by
  obtain ⟨found, hfound, hkey⟩ := href key ref hmem
  obtain rfl : found = object := Option.some.inj (hfound.symm.trans hheap)
  exact hkey

theorem not_mem_filter [DecidableEq κ] {only : κ} (href : Refers heap table rel)
    (hheap : heap ref = some object) (honly : ∀ key, rel key object → key = only) (key : κ) :
    (key, ref) ∉ table.filter (fun entry => entry.1 ≠ only) := by
  intro hmem
  obtain ⟨hmem, hne⟩ := List.mem_filter.mp hmem
  exact of_decide_eq_true hne (honly key (href.rel_of_mem hheap hmem))

variable [DecidableEq ρ]

theorem write (href : Refers heap table rel) (hheap : heap ref = some object)
    (hrel : ∀ key, (key, ref) ∈ table → rel key object → rel key object') :
    Refers (Function.update heap ref (some object')) table rel := by
  intro key ref' hmem
  by_cases href' : ref' = ref
  · subst href'
    exact ⟨object', by simp, hrel key hmem (href.rel_of_mem hheap hmem)⟩
  · obtain ⟨found, hfound, hkey⟩ := href key ref' hmem
    exact ⟨found, by simp [Function.update_of_ne href', hfound], hkey⟩

theorem allocate (href : Refers heap table rel) (hfresh : heap ref = none) :
    Refers (Function.update heap ref (some object)) table rel := by
  intro key ref' hmem
  obtain ⟨found, hfound, hkey⟩ := href key ref' hmem
  have hne : ref' ≠ ref := by
    rintro rfl
    simp [hfresh] at hfound
  exact ⟨found, by simp [Function.update_of_ne hne, hfound], hkey⟩

theorem free (href : Refers heap table rel) (habsent : ∀ key, (key, ref) ∉ table) :
    Refers (Function.update heap ref none) table rel := by
  intro key ref' hmem
  obtain ⟨found, hfound, hkey⟩ := href key ref' hmem
  have hne : ref' ≠ ref := by
    rintro rfl
    exact habsent key hmem
  exact ⟨found, by simp [Function.update_of_ne hne, hfound], hkey⟩

end Refers

end References
